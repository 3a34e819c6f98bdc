import CaptivoAccess.Sanity.RecStore
import CaptivoAccess.Spec.RecErasure

/-! What a policy does to a connector's store, and what one event can do to each part of
the world. -/

namespace Captivo.Erasure

open Lib.Utf8 Lib.FileTree Captivo.RecStore

theorem Holds.of_noNewFile {t t' : Tree} {d : Path} (h : t.NoNewFile t') (hd : Holds t' d) : Holds t d := by
  obtain ⟨p, content, hp, hview⟩ := hd
  exact ⟨p, content, hp, h p content hview⟩

/-! What is left of the index. -/

section Index

variable {now days : ℤ} {rows : List Row} {row : Row}

theorem mem_trimIndexAfterRetention :
    row ∈ trimIndexAfterRetention now days rows ↔ row ∈ rows ∧ ¬ (0 < days ∧ row.lastEventAt < cutoffAt now days) := by
  unfold trimIndexAfterRetention
  split_ifs with hdays
  · exact (and_iff_left fun h => not_lt.2 hdays h.1).symm
  · simp [not_le.1 hdays]

theorem mem_recordingRetention :
    row ∈ recordingRetention now days rows ↔ row ∈ rows ∧ ¬ (0 < days ∧ row.startedAt < cutoffAt now days) := by
  unfold recordingRetention
  split_ifs with hdays
  · exact (and_iff_left fun h => not_lt.2 hdays h.1).symm
  · simp [not_le.1 hdays]

theorem mem_erasureAck {ack : PolicyAck} :
    row ∈ erasureAck now days ack rows ↔ row ∈ confirmErasures ack.purgedKeys rows ∧
      ¬ (0 < ack.retentionRemoved ∧ 0 < days ∧ row.lastEventAt < cutoffAt now days) := by
  simp only [erasureAck]
  split_ifs with hremoved
  · rw [mem_trimIndexAfterRetention, and_iff_right hremoved]
  · exact (and_iff_left fun h => hremoved h.1).symm

end Index

/-! Policies. -/

theorem sweep_keeps (dep : Deployment) (connectorId : String) (now : ℤ) (t : Tree) (p : Policy) :
    t.NoNewFile (sweep dep connectorId now t p).1 ∧ t.Dated now (sweep dep connectorId now t p).1 := by
  unfold sweep
  split_ifs
  · exact purge_preserves now _ t _ _
  · exact ⟨fun _ _ h => h, Tree.Dated.refl now t⟩

section EraseKeys

variable (root : Path) (tenantID : Bytes) (now : ℤ)

theorem eraseKey_keeps (acc : Tree × List Bytes) (key : Bytes) :
    acc.1.NoNewFile (eraseKey root tenantID now acc key).1 ∧ acc.1.Dated now (eraseKey root tenantID now acc key).1 :=
  ⟨noNewFile_delete now root acc.1 tenantID key, dated_delete now root acc.1 tenantID key⟩

theorem eraseKeys_keep (keys : List Bytes) (acc : Tree × List Bytes) :
    acc.1.NoNewFile (keys.foldl (eraseKey root tenantID now) acc).1 ∧
      acc.1.Dated now (keys.foldl (eraseKey root tenantID now) acc).1 := by
  induction keys generalizing acc with
  | nil => exact ⟨fun _ _ h => h, Tree.Dated.refl now acc.1⟩
  | cons key keys ih =>
    have hkey := eraseKey_keeps root tenantID now acc key
    have hrest := ih (eraseKey root tenantID now acc key)
    exact ⟨hkey.1.trans hrest.1, hkey.2.trans hrest.2⟩

variable {root} {tenantID} {now}

theorem mem_eraseKey {acc : Tree × List Bytes} {key k : Bytes} (h : k ∈ (eraseKey root tenantID now acc key).2) :
    k ∈ acc.2 ∨ k = key := by
  unfold eraseKey at h
  simp only at h
  split at h
  · rcases List.mem_append.1 h with h | h
    · exact Or.inl h
    · exact Or.inr (List.mem_singleton.1 h)
  · exact Or.inl h

theorem erased_of_mem_eraseKeys {keys : List Bytes} {acc : Tree × List Bytes} {k : Bytes}
    (h : k ∈ (keys.foldl (eraseKey root tenantID now) acc).2) :
    k ∈ acc.2 ∨ k ∈ keys ∧ ∀ d, recDir root tenantID k = .ok d → ¬ Holds (keys.foldl (eraseKey root tenantID now) acc).1 d := by
  induction keys generalizing acc with
  | nil => exact Or.inl h
  | cons key keys ih =>
    rcases ih h with hk | ⟨hk, hgone⟩
    · rcases mem_eraseKey hk with hk | rfl
      · exact Or.inl hk
      · refine Or.inr ⟨List.mem_cons_self, ?_⟩
        intro d hd hholds
        obtain ⟨p, content, hp, hview⟩ := Holds.of_noNewFile (eraseKeys_keep root tenantID now keys _).1 hholds
        exact no_file_of_delete hd hp hview
    · exact Or.inr ⟨List.mem_cons_of_mem _ hk, hgone⟩

end EraseKeys

theorem applyRecordingPolicy_keeps (dep : Deployment) (connectorId : String) (now : ℤ) (t : Tree) (p : Policy) :
    t.NoNewFile (applyRecordingPolicy dep connectorId now t p).1 ∧
      t.Dated now (applyRecordingPolicy dep connectorId now t p).1 := by
  unfold applyRecordingPolicy
  split_ifs
  · exact ⟨fun _ _ h => h, Tree.Dated.refl now t⟩
  · have hsweep := sweep_keeps dep connectorId now t p
    have hkeys := eraseKeys_keep (dep.root connectorId) p.tenantID now p.purgeRecordingKeys
      ((sweep dep connectorId now t p).1, [])
    exact ⟨hsweep.1.trans hkeys.1, hsweep.2.trans hkeys.2⟩

theorem gone_of_mem_purgedKeys {dep : Deployment} {connectorId : String} {now : ℤ} {t : Tree} {p : Policy} {key : Bytes}
    (h : key ∈ (applyRecordingPolicy dep connectorId now t p).2.purgedKeys) :
    key ∈ p.purgeRecordingKeys ∧ ∀ d, recDir (dep.root connectorId) p.tenantID key = .ok d →
      ¬ Holds (applyRecordingPolicy dep connectorId now t p).1 d := by
  unfold applyRecordingPolicy at h ⊢
  split_ifs at h ⊢
  · simp at h
  · exact (erased_of_mem_eraseKeys h).resolve_left (by simp)

/-! One event. -/

section Step

variable {dep : Deployment} {w : World} {e : Event}

theorem mem_policies_step {cp : String × Policy} (h : cp ∈ (step dep w e).policies) :
    cp ∈ w.policies ∨
      ∃ c, e = .push c ∧ cp = (c, ⟨dep.tenantID, w.retentionDays, pendingErasuresByConnector w.rows w.site c⟩) := by
  cases e with
  | push c =>
    rcases List.mem_append.1 h with h | h
    · exact Or.inl h
    · exact Or.inr ⟨c, rfl, List.mem_singleton.1 h⟩
  | apply i =>
    simp only [step] at h
    split at h
    · exact Or.inl h
    · exact Or.inl (List.eraseIdx_subset h)
  | disconnect c => exact Or.inl (List.mem_filter.1 h).1
  | ack i | openSession siteId key | write i format seq plain | report i truncated =>
    simp only [step] at h
    split at h <;> exact Or.inl h
  | _ => exact Or.inl h

theorem mem_acks_step {ca : String × PolicyAck} (h : ca ∈ (step dep w e).acks) :
    ca ∈ w.acks ∨ ∃ i c p, e = .apply i ∧ w.policies[i]? = some (c, p) ∧
      ca = (c, (applyRecordingPolicy dep c (w.clock c) (w.store c) p).2) := by
  cases e with
  | apply i =>
    simp only [step] at h
    split at h
    · exact Or.inl h
    · rename_i c p hp
      rcases List.mem_append.1 h with h | h
      · exact Or.inl h
      · exact Or.inr ⟨i, c, p, rfl, hp, List.mem_singleton.1 h⟩
  | ack i =>
    simp only [step] at h
    split at h
    · exact Or.inl h
    · exact Or.inl (List.eraseIdx_subset h)
  | loseAck i => exact Or.inl (List.eraseIdx_subset h)
  | disconnect c => exact Or.inl (List.mem_filter.1 h).1
  | openSession siteId key | write i format seq plain | report i truncated =>
    simp only [step] at h
    split at h <;> exact Or.inl h
  | _ => exact Or.inl h

theorem mem_erased_step {key : Bytes} (h : key ∈ (step dep w e).erased) :
    key ∈ w.erased ∨ ∃ i c ack row, e = .ack i ∧ w.acks[i]? = some (c, ack) ∧ row ∈ w.rows ∧
      confirmed ack.purgedKeys row = true ∧ key = row.recordingKey := by
  cases e with
  | ack i =>
    simp only [step] at h
    split at h
    · exact Or.inl h
    · rename_i c ack hack
      rcases List.mem_append.1 h with h | h
      · obtain ⟨row, hrow, rfl⟩ := List.mem_map.1 h
        obtain ⟨hrow, hconf⟩ := List.mem_filter.1 hrow
        exact Or.inr ⟨i, c, ack, row, rfl, hack, hrow, hconf, rfl⟩
      · exact Or.inl h
  | apply i | openSession siteId key | write i format seq plain | report i truncated =>
    simp only [step] at h
    split at h <;> exact Or.inl h
  | _ => exact Or.inl h

theorem requested_step {key : Bytes} (h : key ∈ w.requested) : key ∈ (step dep w e).requested := by
  cases e with
  | request k => exact List.mem_cons_of_mem _ h
  | apply i | ack i | openSession siteId key | write i format seq plain | report i truncated =>
    simp only [step]
    split <;> exact h
  | _ => exact h

theorem pending_step {row : Row} (h : row ∈ (step dep w e).rows) (hpending : row.purgePendingAt.isSome = true) :
    (∃ r ∈ w.rows, r.recordingKey = row.recordingKey ∧ r.purgePendingAt.isSome = true) ∨ e = .request row.recordingKey := by
  have hold : row ∈ w.rows → (∃ r ∈ w.rows, r.recordingKey = row.recordingKey ∧ r.purgePendingAt.isSome = true) ∨
      e = .request row.recordingKey := fun hrow => Or.inl ⟨row, hrow, rfl, hpending⟩
  cases e with
  | request key =>
    obtain ⟨r, hr, rfl⟩ := List.mem_map.1 h
    split_ifs at hpending with hkey
    · right
      rw [if_pos hkey]
      exact congrArg _ hkey.symm
    · left
      rw [if_neg hkey]
      exact ⟨r, hr, rfl, hpending⟩
  | ack i =>
    simp only [step] at h
    split at h
    · exact hold h
    · exact hold (List.mem_filter.1 (mem_erasureAck.1 h).1).1
  | report i truncated =>
    simp only [step] at h
    split at h
    · exact hold h
    · simp only [ingest] at h
      split_ifs at h
      · obtain ⟨r, hr, rfl⟩ := List.mem_map.1 h
        split_ifs at hpending ⊢ <;> exact Or.inl ⟨r, hr, rfl, hpending⟩
      · rcases List.mem_append.1 h with h | h
        · exact hold h
        · rw [List.mem_singleton.1 h] at hpending
          exact absurd hpending (by simp)
  | cron => exact hold (mem_recordingRetention.1 h).1
  | apply i | openSession siteId key | write i format seq plain =>
    simp only [step] at h
    split at h <;> exact hold h
  | _ => exact hold h

/-- A store changes with a policy that its connector carries out, or a chunk of a session through it. -/
theorem store_step (c : String) :
    (step dep w e).store c = w.store c ∨
    (∃ i p, e = .apply i ∧ w.policies[i]? = some (c, p) ∧
      (step dep w e).store c = (applyRecordingPolicy dep c (w.clock c) (w.store c) p).1) ∨
    ∃ i format seq plain s, e = .write i format seq plain ∧ w.sessions[i]? = some s ∧ s.connectorId = c ∧
      (step dep w e).store c =
        (append (dep.sealChunk c) (w.clock c) (dep.root c) (w.store c) (s.stream dep format) seq plain).1 := by
  cases e with
  | apply i =>
    simp only [step]
    split
    · exact Or.inl rfl
    · rename_i c' p hp
      by_cases hc : c = c'
      · subst hc
        exact Or.inr (Or.inl ⟨i, p, rfl, hp, Function.update_self _ _ _⟩)
      · exact Or.inl (Function.update_of_ne hc _ _)
  | write i format seq plain =>
    simp only [step]
    split
    · exact Or.inl rfl
    · rename_i s hs
      by_cases hc : c = s.connectorId
      · subst hc
        exact Or.inr (Or.inr ⟨i, format, seq, plain, s, rfl, hs, rfl, Function.update_self _ _ _⟩)
      · exact Or.inl (Function.update_of_ne hc _ _)
  | ack i | openSession siteId key | report i truncated =>
    simp only [step]
    split <;> exact Or.inl rfl
  | _ => exact Or.inl rfl

/-- A file comes with a chunk of a session, in the store of the session's connector. -/
theorem file_step {c : String} {p : Path} {content : Bytes} (h : ((step dep w e).store c).view p = some (some content)) :
    (w.store c).view p = some (some content) ∨ ∃ i format seq plain s d, e = .write i format seq plain ∧
      w.sessions[i]? = some s ∧ s.connectorId = c ∧ dir (dep.root c) (s.stream dep format) = .ok d ∧
      p = d ++ [decimal seq ++ ascii ".bin"] := by
  rcases store_step c with hstore | ⟨i, pol, -, -, hstore⟩ | ⟨i, format, seq, plain, s, he, hs, hc, hstore⟩
  · exact Or.inl (hstore ▸ h)
  · rw [hstore] at h
    exact Or.inl ((applyRecordingPolicy_keeps dep c _ _ pol).1 p content h)
  · rw [hstore] at h
    rcases file_of_append h with h | ⟨d, hd, hp⟩
    · exact Or.inl h
    · exact Or.inr ⟨i, format, seq, plain, s, d, he, hs, hc, hd, hp⟩

theorem dated_step (c : String) : (w.store c).Dated (w.clock c) ((step dep w e).store c) := by
  rcases store_step c with hstore | ⟨i, pol, -, -, hstore⟩ | ⟨i, format, seq, plain, s, -, -, -, hstore⟩
  · rw [hstore]
    exact Tree.Dated.refl _ _
  · rw [hstore]
    exact (applyRecordingPolicy_keeps dep c _ _ pol).2
  · rw [hstore]
    exact dated_append _ _ _ _ _ _ _

theorem clock_step (c : String) : w.clock c ≤ (step dep w e).clock c := by
  cases e with
  | wait manager connectors => exact Int.le_add_of_nonneg_right (Int.natCast_nonneg _)
  | apply i | ack i | openSession siteId key | write i format seq plain | report i truncated =>
    simp only [step]
    split <;> exact le_rfl
  | _ => exact le_rfl

theorem stored_step {c : String} (h : c ∈ w.stored) : c ∈ (step dep w e).stored := by
  cases e with
  | write i format seq plain =>
    simp only [step]
    split
    · exact h
    · exact List.mem_cons_of_mem _ h
  | apply i | ack i | openSession siteId key | report i truncated =>
    simp only [step]
    split <;> exact h
  | _ => exact h

theorem swept_step {c : String} {mark : ℤ} (h : (step dep w e).swept c = some mark) :
    w.swept c = some mark ∨ ∃ i p, e = .apply i ∧ w.policies[i]? = some (c, p) ∧ p.tenantID ≠ [] ∧
      0 < p.recordingRetentionDays ∧ mark = dep.daysBefore (w.clock c) p.recordingRetentionDays := by
  cases e with
  | apply i =>
    simp only [step] at h
    split at h
    · exact Or.inl h
    · rename_i c' p hp
      by_cases hc : c = c'
      · subst hc
        simp only [applyPolicy, Function.update_self, sweptAfter] at h
        split_ifs at h with hmade
        · simp only [Bool.and_eq_true, decide_eq_true_eq] at hmade
          refine Or.inr ⟨i, p, rfl, hp, hmade.1, ?_, (Option.some.inj h).symm⟩
          by_contra hdays
          simp [sweep, hdays] at hmade
        · exact Or.inl h
      · simp only [applyPolicy, Function.update_of_ne hc] at h
        exact Or.inl h
  | ack i | openSession siteId key | write i format seq plain | report i truncated =>
    simp only [step] at h
    split at h <;> exact Or.inl h
  | _ => exact Or.inl h

end Step

/-! What holds in every run. -/

/-- The tenant's directory in a store. -/
def base (dep : Deployment) (c : String) : Path := dep.root c ++ [dep.tenantID]

theorem join_tenant (dep : Deployment) (c : String) : join (dep.root c) dep.tenantID = base dep c := by
  rw [join_checked _ dep.tenant_ok, names_of_ne dep.tenant_ne, base]

structure Consistent (dep : Deployment) (w : World) : Prop where
  /-- Policies are the tenant's. -/
  tenant : ∀ cp ∈ w.policies, cp.2.tenantID = dep.tenantID
  /-- A connector with a file stored a chunk. -/
  stored : ∀ c p content, (w.store c).view p = some (some content) → c ∈ w.stored
  /-- A chunk lies two levels below the tenant's directory, or deeper. -/
  deep : ∀ c p content, (w.store c).view p = some (some content) → ∃ a b r, p = base dep c ++ a :: b :: r
  /-- What a connector has swept away is gone: its directories are younger than the mark. -/
  swept : ∀ c mark, w.swept c = some mark → mark ≤ w.clock c ∧
    ∀ name m, (w.store c).nodes.lookup (base dep c ++ [name]) = some (.dir m) → mark ≤ m

theorem consistent_start (dep : Deployment) (site : String → Option String) (clock : String → ℤ) (now retentionDays : ℤ) :
    Consistent dep (start site clock now retentionDays) where
  tenant := by simp [start]
  stored c p content h := absurd h (Tree.view_empty _ _ _)
  deep c p content h := absurd h (Tree.view_empty _ _ _)
  swept c mark h := by simp [start] at h

theorem segment_ne (format : Format) : format.segment ≠ [46] := by
  cases format <;> decide

theorem deep_of_dir {dep : Deployment} {c : String} {s : Session} {format : Format} {d : Path}
    (h : dir (dep.root c) (s.stream dep format) = .ok d) (name : Bytes) :
    ∃ a b r, d ++ [name] = base dep c ++ a :: b :: r := by
  obtain ⟨-, -, -, rfl⟩ := dir_ok h
  simp only [Session.stream, names_of_ne dep.tenant_ne, names_of_ne (segment_ne format), base]
  by_cases hkey : s.recordingKey = [46]
  · exact ⟨format.segment, name, [], by simp [names, hkey]⟩
  · exact ⟨s.recordingKey, format.segment, [name], by simp [names, hkey]⟩

/-- After a sweep by the connector its directories are as young as the sweep asked. -/
theorem young_after_sweep {dep : Deployment} {c : String} {now m : ℤ} {t : Tree} {p : Policy} {name : Bytes}
    (htenant : p.tenantID = dep.tenantID) (hne : p.tenantID ≠ []) (hdays : 0 < p.recordingRetentionDays)
    (h : (applyRecordingPolicy dep c now t p).1.nodes.lookup (base dep c ++ [name]) = some (.dir m)) :
    dep.daysBefore now p.recordingRetentionDays ≤ m := by
  have hle := dep.daysBefore_le now p.recordingRetentionDays hdays
  have hsafe : safeSegment p.tenantID = true := by
    rw [htenant]
    exact (checkSegment_ok.1 dep.tenant_ok).1
  simp only [applyRecordingPolicy, if_neg hne] at h
  rcases (eraseKeys_keep _ _ now p.purgeRecordingKeys _).2 _ m h with h | rfl
  · simp only [sweep, if_pos hdays] at h
    rw [← join_tenant, ← htenant] at h
    exact purge_leaves_young hsafe hle h
  · exact hle

theorem consistent_step {dep : Deployment} {w : World} (h : Consistent dep w) (e : Event) : Consistent dep (step dep w e) where
  tenant cp hcp := by
    rcases mem_policies_step hcp with hcp | ⟨c, -, rfl⟩
    · exact h.tenant cp hcp
    · rfl
  stored c p content hfile := by
    rcases file_step hfile with hfile | ⟨i, format, seq, plain, s, d, rfl, hs, rfl, -, -⟩
    · exact stored_step (h.stored c p content hfile)
    · simp only [step, hs, writeChunk]
      exact List.mem_cons_self
  deep c p content hfile := by
    rcases file_step hfile with hfile | ⟨i, format, seq, plain, s, d, -, -, -, hd, rfl⟩
    · exact h.deep c p content hfile
    · exact deep_of_dir hd _
  swept c mark hmark := by
    rcases swept_step hmark with hold | ⟨i, p, rfl, hp, hne, hdays, rfl⟩
    · obtain ⟨hclock, hyoung⟩ := h.swept c mark hold
      refine ⟨hclock.trans (clock_step c), fun name m hm => ?_⟩
      rcases dated_step c _ m hm with hm | rfl
      · exact hyoung name m hm
      · exact hclock
    · refine ⟨(dep.daysBefore_le _ _ hdays).trans (clock_step c), fun name m hm => ?_⟩
      simp only [step, hp, applyPolicy, Function.update_self] at hm
      exact young_after_sweep (h.tenant _ (List.mem_of_getElem? hp)) hne hdays hm

theorem consistent_run {dep : Deployment} {w : World} (h : Consistent dep w) (events : List Event) :
    Consistent dep (run dep w events) := by
  unfold run
  induction events generalizing w with
  | nil => exact h
  | cons e events ih => exact ih (consistent_step h e)

/-! A tenant with two connectors and a site behind the first. -/

def acme : Deployment where
  tenantID := ascii "acme"
  root _ := [ascii "data"]
  sealChunk _ := some
  daysBefore := cutoffAt
  tenant_ok := by decide +kernel
  tenant_ne := by decide +kernel
  daysBefore_le now days h := by
    unfold cutoffAt
    omega

def twoConnectors : World := start (fun s => if s = "crm" then some "c1" else none) (fun _ => 0) 0 0

end Captivo.Erasure
