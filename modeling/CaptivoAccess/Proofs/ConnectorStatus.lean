import CaptivoAccess.Sanity.Registry

/-! The status that the manager has stored of a connector, against the registry. Every
change of an entry is reported once, by the handler that made it. The last report of a
connector is true of its entry, so the status is right at rest if reports are carried out
in the order of the changes; nothing makes them come in that order. -/

namespace Captivo.Registry

open Captivo.Enroll

variable (connector target : ℕ → String)

/-- The report that a handler is about to send. -/
def Owes : TunnelPc → Report → Prop
  | .registered change, r => r.status = .ONLINE ∧ r.change = change
  | .removed change, r => r.status = .OFFLINE ∧ r.change = change
  | _, _ => False

/-- A report that is to be sent or on its way. -/
def Pending (s : State) (r : Report) : Prop := r ∈ s.sent ∨ ∃ i, connector i = r.connectorID ∧ Owes (s.tunnel i) r

/-- What a report of the entry says now. -/
def current (s : State) (id : String) : Reported := if (s.m id).isSome then .ONLINE else .OFFLINE

/-- A report is carried out before any report of a later change, and no kick deletes an entry. -/
def InOrder (s : State) : Event → Prop
  | .deliver r => s.reported r.connectorID < r.change
  | .kickRemove _ => False
  | _ => True

instance decidableInOrder (s : State) : ∀ e, Decidable (InOrder s e)
  | .deliver r => inferInstanceAs (Decidable (s.reported r.connectorID < r.change))
  | .kickRemove _ => isFalse fun h => h
  | .set _ | .online _ | .removeIfSame _ | .offline _ | .close _ | .disconnect _ | .revoke _ | .kickGet _ | .kickClose _ =>
    isTrue trivial

/-- The last change of the entry is still to be reported, or is what was reported last. -/
structure Tracked (id : String) (s : State) : Prop where
  bound : ∀ r, r.connectorID = id → Pending connector s r → 0 < r.change ∧ r.change ≤ s.changes id
  told : (s.changes id = 0 ∧ s.m id = none ∧ s.status id ≠ .ONLINE) ∨
    0 < s.changes id ∧ (Pending connector s ⟨id, current s id, s.changes id⟩ ∨
      s.reported id = s.changes id ∧ (s.status id = .REVOKED ∨ s.status id = (current s id).status))

variable {connector target} {s : State} {id : String}

theorem pending_iff (i : ℕ) (r : Report) :
    Pending connector s r ↔ r ∈ s.sent ∨ (∃ j, j ≠ i ∧ connector j = r.connectorID ∧ Owes (s.tunnel j) r) ∨
      connector i = r.connectorID ∧ Owes (s.tunnel i) r := by
  refine or_congr_right ⟨?_, ?_⟩
  · rintro ⟨j, hj, ho⟩
    by_cases hji : j = i
    · exact Or.inr (hji ▸ ⟨hj, ho⟩)
    · exact Or.inl ⟨j, hji, hj, ho⟩
  · rintro (⟨j, -, hj⟩ | hi)
    · exact ⟨j, hj⟩
    · exact ⟨i, hi⟩

theorem pending_goOn (i : ℕ) (pc : TunnelPc) (r : Report) :
    Pending connector (s.goOn i pc) r ↔ r ∈ s.sent ∨ (∃ j, j ≠ i ∧ connector j = r.connectorID ∧ Owes (s.tunnel j) r) ∨
      connector i = r.connectorID ∧ Owes pc r := by
  rw [pending_iff i, State.goOn_tunnel, Function.update_self]
  refine or_congr_right (or_congr_left (exists_congr fun j => and_congr_right fun hj => ?_))
  rw [Function.update_of_ne hj]

theorem Tracked.of_same {s' : State} (h : Tracked connector id s) (hm : s'.m id = s.m id) (hchanges : s'.changes id = s.changes id)
    (hreported : s'.reported id = s.reported id) (hstatus : s'.status id = s.status id)
    (hpending : ∀ r, r.connectorID = id → (Pending connector s' r ↔ Pending connector s r)) : Tracked connector id s' := by
  have hcur : current s' id = current s id := by rw [current, hm, current]
  constructor
  · intro r hr hp
    rw [hchanges]
    exact h.bound r hr ((hpending r hr).1 hp)
  · rw [hchanges, hm, hstatus, hreported, hcur, hpending _ rfl]
    exact h.told

theorem Tracked.send (h : Tracked connector id s) {i change : ℕ} {status : Reported} {pc pc' : TunnelPc} (hi : s.tunnel i = pc)
    (howes : ∀ r, Owes pc r ↔ r.status = status ∧ r.change = change) (hpc : ∀ r, ¬ Owes pc' r) :
    Tracked connector id ((s.send ⟨connector i, status, change⟩).goOn i pc') := by
  refine h.of_same rfl rfl rfl rfl fun r _ => ?_
  rw [pending_goOn, pending_iff i r, hi, howes]
  have hnew : r ∈ s.sent ++ [⟨connector i, status, change⟩] ↔
      r ∈ s.sent ∨ connector i = r.connectorID ∧ r.status = status ∧ r.change = change := by
    rw [List.mem_append, List.mem_singleton]
    refine or_congr_right ⟨?_, ?_⟩
    · rintro rfl
      exact ⟨rfl, rfl, rfl⟩
    · rintro ⟨h1, h2, h3⟩
      rw [h1, ← h2, ← h3]
  change r ∈ s.sent ++ [_] ∨ _ ↔ _
  rw [hnew, or_assoc]
  refine or_congr_right ?_
  constructor
  · rintro (hr | ⟨j, hj⟩ | ⟨-, ho⟩)
    · exact Or.inr hr
    · exact Or.inl ⟨j, hj⟩
    · exact absurd ho (hpc r)
  · rintro (⟨j, hj⟩ | hr)
    · exact Or.inr (Or.inl ⟨j, hj⟩)
    · exact Or.inl hr

theorem Tracked.goOn (h : Tracked connector id s) {i : ℕ} {pc : TunnelPc} (hi : ∀ r, ¬ Owes (s.tunnel i) r)
    (hpc : ∀ r, ¬ Owes pc r) : Tracked connector id (s.goOn i pc) := by
  refine h.of_same rfl rfl rfl rfl fun r _ => ?_
  rw [pending_goOn, pending_iff i r]
  simp only [hi r, hpc r]

theorem Tracked.change (h : Tracked connector id s) {i : ℕ} {pc : TunnelPc} {session : Option ℕ}
    (howes : ∀ r, Owes pc r ↔ r.status = (if session.isSome then .ONLINE else .OFFLINE) ∧ r.change = s.changes (connector i) + 1) :
    Tracked connector id (((s.put (connector i) session).count (connector i)).goOn i pc) := by
  by_cases hid : connector i = id
  · subst hid
    have hchanges : (((s.put (connector i) session).count (connector i)).goOn i pc).changes (connector i) =
        s.changes (connector i) + 1 := Function.update_self ..
    constructor
    · intro r hr hp
      rw [hchanges]
      rw [pending_goOn] at hp
      rcases hp with hp | ⟨j, -, hj⟩ | ⟨-, ho⟩
      · have := h.bound r hr (Or.inl hp)
        omega
      · have := h.bound r hr (Or.inr ⟨j, hj⟩)
        omega
      · have := ((howes r).1 ho).2
        omega
    · right
      rw [hchanges]
      refine ⟨Nat.succ_pos _, Or.inl ((pending_goOn i pc _).2 (Or.inr (Or.inr ⟨rfl, (howes _).2 ⟨?_, rfl⟩⟩)))⟩
      simp [current]
  · refine h.of_same ?_ ?_ rfl rfl fun r hr => ?_
    · simp [Function.update_of_ne (Ne.symm hid)]
    · exact Function.update_of_ne (Ne.symm hid) ..
    · have hne : connector i ≠ r.connectorID := fun he => hid (he.trans hr)
      rw [pending_goOn, pending_iff i r]
      simp only [hne, false_and]
      exact Iff.rfl

/-- A report that comes in order leaves the last change reported or to be reported. -/
theorem Tracked.deliver (h : Tracked connector id s) {r : Report} (hr : r ∈ s.sent) (horder : s.reported r.connectorID < r.change) :
    Tracked connector id (s.deliver r) := by
  by_cases hid : r.connectorID = id
  · subst hid
    have hbound := h.bound r rfl (Or.inl hr)
    have hreported : (s.deliver r).reported r.connectorID = r.change := Function.update_self ..
    have hstatus : (s.deliver r).status r.connectorID = .REVOKED ∨ (s.deliver r).status r.connectorID = r.status.status := by
      by_cases hrev : s.status r.connectorID = .REVOKED
      · simp [State.deliver, hrev]
      · simp [State.deliver, hrev]
    refine ⟨fun r' hr' hp => h.bound r' hr' (hp.imp_left List.mem_of_mem_erase), Or.inr ?_⟩
    rcases h.told with ⟨hzero, -⟩ | ⟨hpos, hpending | ⟨hlast, -⟩⟩
    · omega
    · refine ⟨hpos, ?_⟩
      by_cases heq : r = ⟨r.connectorID, current s r.connectorID, s.changes r.connectorID⟩
      · have hchange : r.change = s.changes r.connectorID := congrArg Report.change heq
        have hcur : r.status = current s r.connectorID := congrArg Report.status heq
        rw [hcur] at hstatus
        exact Or.inr ⟨hreported.trans hchange, hstatus⟩
      · exact Or.inl (hpending.imp_left fun hmem => (List.mem_erase_of_ne (Ne.symm heq)).2 hmem)
    · omega
  · have hne : id ≠ r.connectorID := Ne.symm hid
    refine h.of_same rfl rfl (Function.update_of_ne hne ..) ?_ fun r' hr' => ?_
    · by_cases hrev : s.status r.connectorID = .REVOKED
      · simp [State.deliver, hrev]
      · simp [State.deliver, hrev, Function.update_of_ne hne]
    · have hneq : r' ≠ r := by
        rintro rfl
        exact hid hr'
      exact or_congr_left (List.mem_erase_of_ne hneq)

theorem Tracked.revoke (h : Tracked connector id s) (id' : String) :
    Tracked connector id { s with status := Function.update s.status id' .REVOKED } := by
  by_cases hid : id = id'
  · subst hid
    refine ⟨h.bound, ?_⟩
    rcases h.told with ⟨hzero, hm, -⟩ | ⟨hpos, hpending | ⟨hlast, -⟩⟩
    · exact Or.inl ⟨hzero, hm, by simp⟩
    · exact Or.inr ⟨hpos, Or.inl hpending⟩
    · exact Or.inr ⟨hpos, Or.inr ⟨hlast, Or.inl (by simp)⟩⟩
  · exact h.of_same rfl rfl rfl (Function.update_of_ne hid ..) fun _ _ => Iff.rfl

theorem tracked_step (h : Tracked connector id s) {e : Event} (horder : InOrder s e) :
    Tracked connector id (step connector target s e) := by
  have hact := acts_step connector target s e
  generalize step connector target s e = s' at hact ⊢
  cases hact with
  | idle => exact h
  | set i hi =>
    have hclose : Tracked connector id (s.closeMux (s.m (connector i))) := h.of_same rfl rfl rfl rfl fun _ _ => Iff.rfl
    exact hclose.change fun r => Iff.rfl
  | online i change hi => exact h.send hi (fun r => Iff.rfl) fun _ ho => ho
  | remove i hi hclosed hm => exact h.change fun r => Iff.rfl
  | replaced i hi hclosed hm => exact h.goOn (by rw [hi]; exact fun _ ho => ho) fun _ ho => ho
  | offline i change hi => exact h.send hi (fun r => Iff.rfl) fun _ ho => ho
  | close i hi =>
    have hclose : Tracked connector id (s.closeMux (some i)) := h.of_same rfl rfl rfl rfl fun _ _ => Iff.rfl
    exact hclose.goOn (by rw [State.closeMux_tunnel, hi]; exact fun _ ho => ho) fun _ ho => ho
  | disconnect i => exact h.of_same rfl rfl rfl rfl fun _ _ => Iff.rfl
  | deliver r hr => exact h.deliver hr horder
  | revoke id' => exact h.revoke id'
  | kickGet k hk => exact h.of_same rfl rfl rfl rfl fun _ _ => Iff.rfl
  | kickClose k session hk => exact h.of_same rfl rfl rfl rfl fun _ _ => Iff.rfl
  | kickRemove k session hk => exact horder.elim

/-- No handler of the connector is running a step, and no report of it is on its way. -/
structure AtRest (connector : ℕ → String) (id : String) (s : State) : Prop where
  handlers : ∀ i, connector i = id →
    s.tunnel i = .connecting ∨ (s.tunnel i = .waiting ∧ s.closed i = false) ∨ s.tunnel i = .ended
  delivered : ∀ r ∈ s.sent, r.connectorID ≠ id

theorem AtRest.not_pending (h : AtRest connector id s) (r : Report) (hr : r.connectorID = id) : ¬ Pending connector s r := by
  rintro (hmem | ⟨i, hi, ho⟩)
  · exact h.delivered r hmem hr
  · rcases h.handlers i (hi.trans hr) with hpc | ⟨hpc, -⟩ | hpc <;> (rw [hpc] at ho; exact ho)

variable (connector target) in
/-- In every run in which reports are carried out in the order of the changes and no kick deletes an entry, at rest the
status of a connector that is not revoked is `ONLINE` exactly if the registry holds a session for it. -/
theorem status_online_iff_registered (status : String → ConnectorStatus) (events : List Event) (id : String)
    (hstart : status id ≠ .ONLINE) (hrun : Lib.Run.Meets (step connector target) InOrder (start status) events)
    (hrest : AtRest connector id (run connector target (start status) events))
    (hrevoked : (run connector target (start status) events).status id ≠ .REVOKED) :
    (run connector target (start status) events).status id = .ONLINE ↔
      ((run connector target (start status) events).m id).isSome = true := by
  have hinit : Tracked connector id (start status) := by
    refine ⟨fun r _ hp => ?_, Or.inl ⟨rfl, rfl, hstart⟩⟩
    rcases hp with hmem | ⟨i, -, ho⟩
    · cases hmem
    · exact ho.elim
  have hstep : ∀ s e, Tracked connector id s → InOrder s e → Tracked connector id (step connector target s e) :=
    fun _ _ h horder => tracked_step h horder
  have htracked := Lib.Run.invariant hstep hinit hrun
  change Tracked connector id (run connector target (start status) events) at htracked
  generalize run connector target (start status) events = s at htracked hrest hrevoked ⊢
  rcases htracked.told with ⟨-, hm, hstatus⟩ | ⟨-, hpending | ⟨-, hstatus⟩⟩
  · simp [hm, hstatus]
  · exact absurd hpending (hrest.not_pending _ rfl)
  · rw [hstatus.resolve_left hrevoked, current]
    split_ifs with hm
    · simp [hm, Reported.status]
    · simp [hm, Reported.status]

/-- A connector that connects, drops and connects again, with every report carried out before the next change. -/
def reconnect : List Event :=
  [.set 0, .online 0, .deliver ⟨"c", .ONLINE, 1⟩, .disconnect 0, .removeIfSame 0, .offline 0, .deliver ⟨"c", .OFFLINE, 2⟩,
    .close 0, .set 1, .online 1, .deliver ⟨"c", .ONLINE, 3⟩]

/-- The same events, but the first handler is slow to send its second report. -/
def slowReconnect : List Event :=
  [.set 0, .online 0, .deliver ⟨"c", .ONLINE, 1⟩, .disconnect 0, .removeIfSame 0, .set 1, .online 1,
    .deliver ⟨"c", .ONLINE, 3⟩, .offline 0, .deliver ⟨"c", .OFFLINE, 2⟩, .close 0]

theorem atRest_two {s : State} (h0 : s.tunnel 0 = .ended) (h1 : s.tunnel 1 = .waiting) (hopen : s.closed 1 = false)
    (hmore : ∀ n, s.tunnel (n + 2) = .connecting) (hsent : s.sent = []) : AtRest (fun _ => "c") "c" s := by
  refine ⟨fun i _ => ?_, fun r hr => by rw [hsent] at hr; cases hr⟩
  match i with
  | 0 => exact Or.inr (Or.inr h0)
  | 1 => exact Or.inr (Or.inl ⟨h1, hopen⟩)
  | n + 2 => exact Or.inl (hmore n)

theorem status_online_iff_registered_reconnect :
    ((run (fun _ => "c") (fun _ => "c") (start fun _ => .PENDING) reconnect).status "c" = .ONLINE ↔
      ((run (fun _ => "c") (fun _ => "c") (start fun _ => .PENDING) reconnect).m "c").isSome = true) ∧
      (run (fun _ => "c") (fun _ => "c") (start fun _ => .PENDING) reconnect).m "c" = some 1 :=
  ⟨status_online_iff_registered (fun _ => "c") (fun _ => "c") (fun _ => .PENDING) reconnect "c" (by decide)
    (by decide) (atRest_two (by decide) (by decide) (by decide) (fun _ => rfl) (by decide)) (by decide), by decide⟩

/-- The report of the first session's end is carried out last: the connector is stored as offline while the registry
holds its second session. -/
theorem late_offline_report :
    AtRest (fun _ => "c") "c" (run (fun _ => "c") (fun _ => "c") (start fun _ => .PENDING) slowReconnect) ∧
      (run (fun _ => "c") (fun _ => "c") (start fun _ => .PENDING) slowReconnect).status "c" = .OFFLINE ∧
      (run (fun _ => "c") (fun _ => "c") (start fun _ => .PENDING) slowReconnect).m "c" = some 1 :=
  ⟨atRest_two (by decide) (by decide) (by decide) (fun _ => rfl) (by decide), by decide, by decide⟩

end Captivo.Registry
