import CaptivoAccess.Sanity.Registry

/-! Sessions that leave the registry are closed, as long as no connector registers while a
kick for it is between reading the entry and deleting it: the kick deletes whatever entry is
there then, and closes only what it has read. -/

namespace Captivo.Registry

open Captivo.Enroll

variable (connector target : ℕ → String)

/-- No kick for the connector of a handler that registers is between its two looks at the registry. -/
def KickApart (s : State) : Event → Prop
  | .set i => ∀ k session, target k = connector i → s.kick k ≠ .got session ∧ s.kick k ≠ .closed session
  | _ => True

/-- What holds of the registry while kicks are kept apart. -/
structure Sound (s : State) : Prop where
  left : ∀ i, s.tunnel i ≠ .connecting → s.m (connector i) ≠ some i → s.closed i = true
  entry : ∀ id i, s.m id = some i → connector i = id ∧ s.tunnel i ≠ .connecting
  kicked : ∀ k session, s.kick k = .got session ∨ s.kick k = .closed session →
    s.m (target k) = none ∨ s.m (target k) = session
  shut : ∀ k i, s.kick k = .closed (some i) → s.closed i = true

variable {connector target} {s : State}

/-- Closing a session keeps it, and so does anything else that leaves the registry and who is where. -/
theorem Sound.of_same {s' : State} (h : Sound connector target s) (hm : s'.m = s.m) (hkick : s'.kick = s.kick)
    (htunnel : ∀ i, s'.tunnel i = .connecting ↔ s.tunnel i = .connecting)
    (hclosed : ∀ i, s.closed i = true → s'.closed i = true) : Sound connector target s' where
  left i ht hne := hclosed i (h.left i (fun hc => ht ((htunnel i).2 hc)) (by rwa [hm] at hne))
  entry id i hi := by
    rw [hm] at hi
    exact ⟨(h.entry id i hi).1, fun hc => (h.entry id i hi).2 ((htunnel i).1 hc)⟩
  kicked k session hk := by
    rw [hkick] at hk
    rw [hm]
    exact h.kicked k session hk
  shut k i hk := hclosed i (h.shut k i (by rwa [hkick] at hk))

theorem Sound.goOn (h : Sound connector target s) {i : ℕ} {pc : TunnelPc} (hi : s.tunnel i ≠ .connecting)
    (hpc : pc ≠ .connecting) : Sound connector target (s.goOn i pc) := by
  refine h.of_same rfl rfl (fun j => ?_) fun _ hj => hj
  by_cases hj : j = i
  · simp [hj, hpc, hi]
  · simp [Function.update_of_ne hj]

theorem Sound.closeMux (h : Sound connector target s) (session : Option ℕ) : Sound connector target (s.closeMux session) :=
  h.of_same rfl rfl (fun _ => Iff.rfl) fun _ hj => s.closed_closeMux session hj

theorem Sound.delete (h : Sound connector target s) {id : String} (hid : ∀ i, s.m id = some i → s.closed i = true) :
    Sound connector target (s.put id none) where
  left i ht hne := by
    by_cases hm : s.m (connector i) = some i
    · by_cases hc : connector i = id
      · exact hid i (hc ▸ hm)
      · rw [State.put_m, Function.update_of_ne hc] at hne
        exact absurd hm hne
    · exact h.left i ht hm
  entry id' i hi := by
    by_cases hc : id' = id
    · simp [hc] at hi
    · rw [State.put_m, Function.update_of_ne hc] at hi
      exact h.entry id' i hi
  kicked k session hk := by
    by_cases hc : target k = id
    · exact Or.inl (by simp [hc])
    · rw [State.put_m, Function.update_of_ne hc]
      exact h.kicked k session hk
  shut := h.shut

theorem Sound.set (h : Sound connector target s) {i : ℕ} (hapart : KickApart connector target s (.set i)) (change : ℕ) :
    Sound connector target ((((s.closeMux (s.m (connector i))).put (connector i) (some i)).count (connector i)).goOn i
      (.registered change)) := by
  have hother : ∀ j, j ≠ i → Function.update s.tunnel i (.registered change) j = s.tunnel j :=
    fun j hj => Function.update_of_ne hj ..
  constructor
  · intro j ht hne
    simp only [State.goOn_m, State.count_m, State.put_m, State.closeMux_m, State.goOn_tunnel, State.count_tunnel,
      State.put_tunnel, State.closeMux_tunnel, State.goOn_closed, State.count_closed, State.put_closed] at ht hne ⊢
    by_cases hji : j = i
    · simp [hji] at hne
    · rw [hother j hji] at ht
      by_cases hold : s.m (connector j) = some j
      · by_cases hc : connector j = connector i
        · rw [← hc, hold]
          exact s.closeMux_self j
        · rw [Function.update_of_ne hc] at hne
          exact absurd hold hne
      · exact s.closed_closeMux _ (h.left j ht hold)
  · intro id j hj
    simp only [State.goOn_m, State.count_m, State.put_m, State.closeMux_m, State.goOn_tunnel, State.count_tunnel,
      State.put_tunnel, State.closeMux_tunnel] at hj ⊢
    by_cases hc : id = connector i
    · rw [hc, Function.update_self, Option.some.injEq] at hj
      subst hj
      simp [hc]
    · rw [Function.update_of_ne hc] at hj
      have hentry := h.entry id j hj
      have hji : j ≠ i := by
        rintro rfl
        exact hc hentry.1.symm
      rw [hother j hji]
      exact hentry
  · intro k session hk
    have hne : target k ≠ connector i := by
      intro he
      rcases hk with hk | hk
      · exact (hapart k session he).1 hk
      · exact (hapart k session he).2 hk
    rw [State.goOn_m, State.count_m, State.put_m, Function.update_of_ne hne]
    exact h.kicked k session hk
  · intro k j hk
    exact s.closed_closeMux _ (h.shut k j hk)

theorem Sound.kickOn (h : Sound connector target s) {k : ℕ} {pc : KickPc}
    (hpc : ∀ session, pc = .got session ∨ pc = .closed session → s.m (target k) = none ∨ s.m (target k) = session)
    (hshut : ∀ i, pc = .closed (some i) → s.closed i = true) : Sound connector target (s.kickOn k pc) := by
  refine ⟨h.left, h.entry, fun k' session hk => ?_, fun k' i hk => ?_⟩ <;> by_cases hkk : k' = k
  · rw [State.kickOn_kick, hkk, Function.update_self] at hk
    rw [hkk]
    exact hpc session hk
  · rw [State.kickOn_kick, Function.update_of_ne hkk] at hk
    exact h.kicked k' session hk
  · rw [State.kickOn_kick, hkk, Function.update_self] at hk
    exact hshut i hk
  · rw [State.kickOn_kick, Function.update_of_ne hkk] at hk
    exact h.shut k' i hk

theorem sound_step (h : Sound connector target s) {e : Event} (hapart : KickApart connector target s e) :
    Sound connector target (step connector target s e) := by
  have hact := acts_step connector target s e
  generalize step connector target s e = s' at hact ⊢
  cases hact with
  | idle => exact h
  | set i hi => exact h.set hapart _
  | online i change hi =>
    have hsent : Sound connector target (s.send ⟨connector i, .ONLINE, change⟩) := ⟨h.left, h.entry, h.kicked, h.shut⟩
    exact hsent.goOn (by rw [State.send_tunnel, hi]; simp) (by simp)
  | remove i hi hclosed hm =>
    have hdel := h.delete fun j hj => by
      rw [hm, Option.some.injEq] at hj
      exact hj ▸ hclosed
    have hcount : Sound connector target ((s.put (connector i) none).count (connector i)) :=
      ⟨hdel.left, hdel.entry, hdel.kicked, hdel.shut⟩
    exact hcount.goOn (by rw [State.count_tunnel, State.put_tunnel, hi]; simp) (by simp)
  | replaced i hi hclosed hm => exact h.goOn (by rw [hi]; simp) (by simp)
  | offline i change hi =>
    have hsent : Sound connector target (s.send ⟨connector i, .OFFLINE, change⟩) := ⟨h.left, h.entry, h.kicked, h.shut⟩
    exact hsent.goOn (by rw [State.send_tunnel, hi]; simp) (by simp)
  | close i hi => exact (h.closeMux (some i)).goOn (by rw [State.closeMux_tunnel, hi]; simp) (by simp)
  | disconnect i => exact h.closeMux (some i)
  | deliver r hr => exact ⟨h.left, h.entry, h.kicked, h.shut⟩
  | revoke id => exact ⟨h.left, h.entry, h.kicked, h.shut⟩
  | kickGet k hk => exact h.kickOn (fun session hs => by simp_all) (fun i hi => by simp at hi)
  | kickClose k session hk =>
    refine (h.closeMux session).kickOn (fun session' hs => ?_) (fun i hi => ?_)
    · obtain rfl : session = session' := by simpa using hs
      exact h.kicked k session (Or.inl hk)
    · rw [KickPc.closed.injEq] at hi
      rw [hi]
      exact s.closeMux_self i
  | kickRemove k session hk =>
    refine (h.delete fun i hi => ?_).kickOn (fun session' hs => by simp at hs) (fun i hi => by simp at hi)
    rcases h.kicked k session (Or.inr hk) with hnone | hsame
    · rw [hi] at hnone
      cases hnone
    · rw [hi] at hsame
      exact h.shut k i (hsame ▸ hk)

/-- An entry that a step deletes is that of a closed session, and a kick deletes only what it has closed. -/
theorem closed_of_delete (h : Sound connector target s) {e : Event} {id : String} {i : ℕ} (hm : s.m id = some i)
    (hgone : (step connector target s e).m id = none) :
    s.closed i = true ∧ ∀ k, e = .kickRemove k → s.kick k = .closed (some i) := by
  have hact := acts_step connector target s e
  generalize step connector target s e = s' at hact hgone
  have hkeep : s'.m ≠ s.m := by
    intro heq
    rw [heq, hm] at hgone
    cases hgone
  cases hact with
  | set j hj =>
    have hne : id ≠ connector j := by
      rintro rfl
      simp at hgone
    rw [State.goOn_m, State.count_m, State.put_m, Function.update_of_ne hne] at hgone
    rw [State.closeMux_m, hm] at hgone
    cases hgone
  | remove j hj hclosed hmj =>
    have hid : id = connector j := by
      by_contra hne
      rw [State.goOn_m, State.count_m, State.put_m, Function.update_of_ne hne, hm] at hgone
      cases hgone
    rw [hid, hmj, Option.some.injEq] at hm
    exact ⟨hm ▸ hclosed, fun k hk => nomatch hk⟩
  | kickRemove k session hk =>
    have hid : id = target k := by
      by_contra hne
      rw [State.kickOn_m, State.put_m, Function.update_of_ne hne, hm] at hgone
      cases hgone
    rcases h.kicked k session (Or.inr hk) with hnone | hsame
    · rw [← hid, hm] at hnone
      cases hnone
    · rw [← hid, hm] at hsame
      rw [← hsame] at hk
      refine ⟨h.shut k i hk, fun k' hk' => ?_⟩
      cases hk'
      exact hk
  | _ => exact absurd rfl hkeep

theorem sound_start (status : String → ConnectorStatus) : Sound connector target (start status) := by
  constructor <;> intros <;> simp_all [start]

theorem sound_run {status : String → ConnectorStatus} {events : List Event}
    (hrun : Lib.Run.Meets (step connector target) (KickApart connector target) (start status) events) :
    Sound connector target (run connector target (start status) events) := by
  have hstep : ∀ s e, Sound connector target s → KickApart connector target s e →
      Sound connector target (step connector target s e) := fun _ _ h hapart => sound_step h hapart
  exact Lib.Run.invariant hstep (sound_start status) hrun

variable (connector target) in
/-- In every run in which no connector registers between the two looks of a kick for it: a session that was registered
and is not in the registry is closed; and an entry is deleted only when its session is closed, by a kick only when that
kick has closed it. -/
theorem removed_sessions_closed (status : String → ConnectorStatus) (events : List Event)
    (hrun : Lib.Run.Meets (step connector target) (KickApart connector target) (start status) events) :
    (∀ i, (run connector target (start status) events).tunnel i ≠ .connecting →
      (run connector target (start status) events).m (connector i) ≠ some i →
      (run connector target (start status) events).closed i = true) ∧
    ∀ pre e post, events = pre ++ e :: post → ∀ id i, (run connector target (start status) pre).m id = some i →
      (run connector target (start status) (pre ++ [e])).m id = none →
      (run connector target (start status) pre).closed i = true ∧
        ∀ k, e = .kickRemove k → (run connector target (start status) pre).kick k = .closed (some i) := by
  refine ⟨(sound_run hrun).left, fun pre e post hsplit id i hm hgone => ?_⟩
  rw [hsplit] at hrun
  have hpre := sound_run (Lib.Run.meets_append.1 hrun).1
  rw [run, List.foldl_append] at hgone
  exact closed_of_delete hpre hm hgone

/-- One connector connects and is kicked. -/
theorem removed_sessions_closed_kick :
    (run (fun _ => "c") (fun _ => "c") (start fun _ => .PENDING)
        [.set 0, .online 0, .kickGet 0, .kickClose 0, .kickRemove 0]).m "c" = none ∧
      (run (fun _ => "c") (fun _ => "c") (start fun _ => .PENDING)
        [.set 0, .online 0, .kickGet 0, .kickClose 0, .kickRemove 0]).closed 0 = true :=
  ⟨by decide, (removed_sessions_closed (fun _ => "c") (fun _ => "c") (fun _ => .PENDING)
    [.set 0, .online 0, .kickGet 0, .kickClose 0, .kickRemove 0]
    ⟨fun k session _ => by simp [start], trivial, trivial, trivial, trivial, trivial⟩).1 0 (by decide) (by decide)⟩

/-- The connector comes back while a kick is under way: the kick closes the old session and deletes the entry of the
new one, which is live and stays out of the registry. -/
theorem kick_removes_live_session :
    (run (fun _ => "c") (fun _ => "c") (start fun _ => .PENDING)
        [.set 0, .online 0, .kickGet 0, .set 1, .kickClose 0, .kickRemove 0]).tunnel 1 = .registered 2 ∧
      (run (fun _ => "c") (fun _ => "c") (start fun _ => .PENDING)
        [.set 0, .online 0, .kickGet 0, .set 1, .kickClose 0, .kickRemove 0]).m "c" = none ∧
      (run (fun _ => "c") (fun _ => "c") (start fun _ => .PENDING)
        [.set 0, .online 0, .kickGet 0, .set 1, .kickClose 0, .kickRemove 0]).closed 1 = false := by
  decide

end Captivo.Registry
