import CaptivoAccess.Sanity.RecErasure

/-! When a confirmed erasure is one. A recording whose row went because its connector
confirmed is nowhere stored, then and later, if the connector that was asked is the only
one with chunks of it and none is written once its erasure was requested. -/

namespace Captivo.Erasure

open Lib.Utf8 Lib.FileTree Captivo.RecStore

/-- The chunk lies in the directory of the recording. -/
def Into (dep : Deployment) (c : String) (s : Stream) (seq : ℤ) (key : Bytes) : Prop :=
  ∃ d d', recDir (dep.root c) dep.tenantID key = .ok d ∧ dir (dep.root c) s = .ok d' ∧
    d <+: d' ++ [decimal seq ++ ascii ".bin"]

/-- A connector that is to delete a recording is the only one that has chunks of it, and no chunk is
written into a recording whose erasure was requested. -/
def Orderly (dep : Deployment) (w : World) : Event → Prop
  | .apply i => ∀ c p, w.policies[i]? = some (c, p) → ∀ key ∈ p.purgeRecordingKeys, ∀ c', c' ≠ c → ¬ Stores dep w c' key
  | .write i format seq _ => ∀ s, w.sessions[i]? = some s → ∀ key ∈ w.requested,
      ¬ Into dep s.connectorId (s.stream dep format) seq key
  | _ => True

section Step

variable {dep : Deployment} {w : World} {e : Event} {key : Bytes}

theorem stores_step {c : String} (h : Stores dep (step dep w e) c key) :
    Stores dep w c key ∨ ∃ i format seq plain s, e = .write i format seq plain ∧ w.sessions[i]? = some s ∧
      s.connectorId = c ∧ Into dep c (s.stream dep format) seq key := by
  obtain ⟨d, hd, p, content, hp, hfile⟩ := h
  rcases file_step hfile with hfile | ⟨i, format, seq, plain, s, d', he, hs, hc, hd', rfl⟩
  · exact Or.inl ⟨d, hd, p, content, hp, hfile⟩
  · exact Or.inr ⟨i, format, seq, plain, s, he, hs, hc, d, d', hd, hd', hp⟩

/-- Erasure was requested, and no connector has a chunk. -/
def Gone (dep : Deployment) (w : World) (key : Bytes) : Prop := key ∈ w.requested ∧ ∀ c, ¬ Stores dep w c key

theorem gone_step (hok : Orderly dep w e) (h : Gone dep w key) : Gone dep (step dep w e) key := by
  refine ⟨requested_step h.1, fun c hstores => ?_⟩
  rcases stores_step hstores with hstores | ⟨i, format, seq, plain, s, rfl, hs, rfl, hinto⟩
  · exact h.2 c hstores
  · exact hok s hs key h.1 hinto

theorem gone_of_apply {i : ℕ} {c : String} {p : Policy} (hok : Orderly dep w (.apply i)) (hp : w.policies[i]? = some (c, p))
    (htenant : p.tenantID = dep.tenantID) (hrequested : ∀ key ∈ p.purgeRecordingKeys, key ∈ w.requested)
    (hkey : key ∈ (applyRecordingPolicy dep c (w.clock c) (w.store c) p).2.purgedKeys) :
    Gone dep (step dep w (.apply i)) key := by
  obtain ⟨hasked, hgone⟩ := gone_of_mem_purgedKeys hkey
  rw [htenant] at hgone
  refine ⟨requested_step (hrequested key hasked), fun c' hstores => ?_⟩
  by_cases hc : c' = c
  · subst hc
    obtain ⟨d, hd, hholds⟩ := hstores
    simp only [step, hp, applyPolicy, Function.update_self] at hholds
    exact hgone d hd hholds
  · rcases stores_step hstores with hstores | ⟨_, _, _, _, _, he, -⟩
    · exact hok c p hp key hasked c' hc hstores
    · exact Event.noConfusion he

end Step

/-- What is pending or under way was requested, and what is confirmed is gone. -/
structure Answered (dep : Deployment) (w : World) : Prop where
  pending : ∀ r ∈ w.rows, r.purgePendingAt.isSome = true → r.recordingKey ∈ w.requested
  policies : ∀ cp ∈ w.policies, ∀ key ∈ cp.2.purgeRecordingKeys, key ∈ w.requested
  acks : ∀ ca ∈ w.acks, ∀ key ∈ ca.2.purgedKeys, Gone dep w key
  erased : ∀ key ∈ w.erased, Gone dep w key

theorem answered_start (dep : Deployment) (site : String → Option String) (clock : String → ℤ) (now retentionDays : ℤ) :
    Answered dep (start site clock now retentionDays) where
  pending := by simp [start]
  policies := by simp [start]
  acks := by simp [start]
  erased := by simp [start]

theorem answered_step {dep : Deployment} {w : World} {e : Event} (hcons : Consistent dep w) (h : Answered dep w)
    (hok : Orderly dep w e) : Answered dep (step dep w e) where
  pending r hr hpending := by
    rcases pending_step hr hpending with ⟨r', hr', hkey, hpending'⟩ | rfl
    · rw [← hkey]
      exact requested_step (h.pending r' hr' hpending')
    · exact List.mem_cons_self
  policies cp hcp key hkey := by
    rcases mem_policies_step hcp with hcp | ⟨c, -, rfl⟩
    · exact requested_step (h.policies cp hcp key hkey)
    · -- the keys of a new policy are those of pending rows
      obtain ⟨r, hr, rfl⟩ := List.mem_map.1 hkey
      obtain ⟨hr, hpending⟩ := List.mem_filter.1 hr
      rw [Bool.and_eq_true] at hpending
      exact requested_step (h.pending r hr hpending.1)
  acks ca hca key hkey := by
    rcases mem_acks_step hca with hca | ⟨i, c, p, rfl, hp, rfl⟩
    · exact gone_step hok (h.acks ca hca key hkey)
    · have hmem := List.mem_of_getElem? hp
      exact gone_of_apply hok hp (hcons.tenant _ hmem) (h.policies _ hmem) hkey
  erased key hkey := by
    rcases mem_erased_step hkey with hkey | ⟨i, c, ack, row, rfl, hack, -, hconf, rfl⟩
    · exact gone_step hok (h.erased key hkey)
    · rw [confirmed, Bool.and_eq_true, decide_eq_true_eq] at hconf
      exact gone_step hok (h.acks _ (List.mem_of_getElem? hack) _ hconf.1)

/-- In every orderly run a recording whose row was removed because its erasure was confirmed is stored
nowhere, in every state from then on. -/
theorem confirmed_erasure_is_gone (dep : Deployment) (site : String → Option String) (clock : String → ℤ)
    (now retentionDays : ℤ) (events : List Event)
    (h : Lib.Run.Meets (step dep) (Orderly dep) (start site clock now retentionDays) events) :
    ∀ key ∈ (run dep (start site clock now retentionDays) events).erased, ∀ c,
      ¬ Stores dep (run dep (start site clock now retentionDays) events) c key := by
  have hstep : ∀ w e, (Consistent dep w ∧ Answered dep w) → Orderly dep w e →
      Consistent dep (step dep w e) ∧ Answered dep (step dep w e) :=
    fun w e hw hok => ⟨consistent_step hw.1 e, answered_step hw.1 hw.2 hok⟩
  have hinv := Lib.Run.invariant hstep
    ⟨consistent_start dep site clock now retentionDays, answered_start dep site clock now retentionDays⟩ h
  exact fun key hkey => (hinv.2.erased key hkey).2

def recording : Bytes := ascii "r1"

/-- A session that records one chunk and ends, and the request to erase it. -/
def recordedThenRequested : List Event :=
  [.openSession "crm" recording, .write 0 .guac 0 [1], .report 0 false, .closeSession 0, .request recording]

def pushedToFirst : List Event := recordedThenRequested ++ [.push "c1"]

theorem consistent_pushedToFirst : Consistent acme (run acme twoConnectors pushedToFirst) :=
  consistent_run (consistent_start acme _ _ _ _) pushedToFirst

theorem pushedToFirst_stored : (run acme twoConnectors pushedToFirst).stored = ["c1"] := by decide +kernel

theorem pushedToFirst_policies : ∀ cp ∈ (run acme twoConnectors pushedToFirst).policies, cp.1 = "c1" := by decide +kernel

theorem orderly_pushedToFirst : Lib.Run.Meets (step acme) (Orderly acme) twoConnectors (pushedToFirst ++ [.apply 0, .ack 0]) := by
  rw [Lib.Run.meets_append]
  constructor
  · -- nothing is requested before the chunk is written
    exact ⟨trivial, fun _ _ _ hkey => absurd hkey List.not_mem_nil, trivial, trivial, trivial, trivial, trivial⟩
  · refine ⟨fun c p hp key _ c' hc hstores => ?_, trivial, trivial⟩
    obtain rfl : c = "c1" := pushedToFirst_policies _ (List.mem_of_getElem? hp)
    obtain ⟨d, -, path, content, -, hfile⟩ := hstores
    have hmem := consistent_pushedToFirst.stored _ _ _ hfile
    rw [pushedToFirst_stored] at hmem
    exact hc (List.mem_singleton.1 hmem)

/-- The connector that has the chunk deletes it and confirms. -/
theorem confirmed_erasure_is_gone_acme :
    recording ∈ (run acme twoConnectors (pushedToFirst ++ [.apply 0, .ack 0])).erased ∧
    ∀ c, ¬ Stores acme (run acme twoConnectors (pushedToFirst ++ [.apply 0, .ack 0])) c recording := by
  have herased : recording ∈ (run acme twoConnectors (pushedToFirst ++ [.apply 0, .ack 0])).erased := by decide +kernel
  exact ⟨herased, confirmed_erasure_is_gone acme _ _ _ _ _ orderly_pushedToFirst recording herased⟩

/-- The session is still open, and writes between the deletion and the ack. -/
def lateChunk : List Event :=
  [.openSession "crm" recording, .write 0 .guac 0 [1], .report 0 false, .request recording, .push "c1", .apply 0,
    .write 0 .guac 1 [2], .ack 0]

/-- The site is moved, and the new connector confirms what it never had. -/
def movedSite : List Event := recordedThenRequested ++ [.move "crm" (some "c2"), .push "c2", .apply 0, .ack 0]

theorem confirmed_erasure_is_stored :
    (recording ∈ (run acme twoConnectors lateChunk).erased ∧ Stores acme (run acme twoConnectors lateChunk) "c1" recording) ∧
    recording ∈ (run acme twoConnectors movedSite).erased ∧ Stores acme (run acme twoConnectors movedSite) "c1" recording := by
  refine ⟨⟨by decide +kernel, ?_⟩, by decide +kernel, ?_⟩
  · exact ⟨[ascii "data", ascii "acme", recording], by decide +kernel,
      [ascii "data", ascii "acme", recording, ascii "guac", ascii "1.bin"], [2], by decide, by decide +kernel⟩
  · exact ⟨[ascii "data", ascii "acme", recording], by decide +kernel,
      [ascii "data", ascii "acme", recording, ascii "guac", ascii "0.bin"], [1], by decide, by decide +kernel⟩

end Captivo.Erasure
