import CaptivoAccess.Spec.KasmBroker

/-! Who is on a display. The table of the sessions is what a display is chosen by, and a
session leaves it before its processes are gone; so the display of a session that is
being killed is free for the next one. Where no display is chosen while a session is
still being killed, no start is given up half-way and no `hsetroot` outlives its
session, every display is one session's. -/

namespace Captivo.Kasm

open Lib.Run

/-- The sessions that have a display: those of the table, and the one that is being opened. -/
def Broker.seats (s : Broker) : List Session := s.sessions ++ s.opening.toList.map Opening.session

/-- Every process that someone knows of: a session of the table, the call that is opening one, or a run of `_kill`. -/
def Known (s : Broker) (p : Proc) : Prop := (∃ r ∈ s.seats, p ∈ r.procs) ∨ ∃ job ∈ s.jobs, p ∈ job.kill

/-- When a display is chosen every run of `_kill` is over and no `hsetroot` is left of a session that is gone; and a start is only
given up before its first process. -/
def Settled (s : Broker) : Event → Prop
  | .acquire _ => (∀ job ∈ s.jobs, job.kill = []) ∧
      ∀ p ∈ s.alive, p.program = .hsetroot → ∃ r ∈ s.sessions, p.display = r.display
  | .raise => ∀ o ∈ s.opening, o.session.procs = []
  | _ => True

instance (s : Broker) : ∀ e, Decidable (Settled s e)
  | .acquire _ => inferInstanceAs (Decidable (_ ∧ _))
  | .raise => inferInstanceAs (Decidable (∀ o ∈ s.opening, o.session.procs = []))
  | .spawn | .register _ | .close _ | .reap _ | .signal _ | .exit _ => inferInstanceAs (Decidable True)

/-- The processes of one display are of one session; and whoever has a seat has its display for itself. -/
structure Exclusive (s : Broker) : Prop where
  alive : ∀ p ∈ s.alive, ∀ q ∈ s.alive, p.display = q.display → p.sid = q.sid
  known : ∀ p ∈ s.alive, p.program = .hsetroot ∨ Known s p
  own : ∀ r ∈ s.seats, ∀ p ∈ r.procs, p.display = r.display
  seat : ∀ r ∈ s.seats, ∀ p ∈ s.alive, p.display = r.display → p.sid = r.sid
  apart : ∀ o ∈ s.opening, ∀ r ∈ s.sessions, r.display ≠ o.session.display

section Step

variable {maxSessions : ℕ} {maxSessionSeconds : ℤ} {s : Broker}

theorem assigns_some {time : ℤ} {display : ℕ} (h : assigns maxSessions s (.acquire time) = some display) :
    s.opening = none ∧ ∀ r ∈ s.sessions, r.display ≠ display := by
  simp only [assigns] at h
  split_ifs at h with hbusy
  simp only [Bool.or_eq_true, not_or, Option.not_isSome_iff_eq_none] at hbusy
  have hfree := List.find?_some h
  simp only [decide_eq_true_eq] at hfree
  refine ⟨hbusy.1, fun r hr he => hfree ?_⟩
  rw [← he]
  exact List.mem_map_of_mem hr

theorem seats_none (h : s.opening = none) : s.seats = s.sessions := by
  rw [Broker.seats, h, Option.toList_none, List.map_nil, List.append_nil]

/-- A display that is chosen where everything is settled has no process on it. -/
theorem Exclusive.free (h : Exclusive s) {time : ℤ} (hs : Settled s (.acquire time)) {display : ℕ}
    (hd : assigns maxSessions s (.acquire time) = some display) : ∀ p ∈ s.alive, p.display ≠ display := by
  obtain ⟨hnone, hfree⟩ := assigns_some hd
  intro p hp he
  have hseat : ∃ r ∈ s.sessions, p.display = r.display := by
    rcases h.known p hp with hset | ⟨r, hr, hpr⟩ | ⟨job, hjob, hpj⟩
    · exact hs.2 p hp hset
    · rw [seats_none hnone] at hr
      exact ⟨r, hr, h.own r (by rw [seats_none hnone]; exact hr) p hpr⟩
    · rw [hs.1 job hjob] at hpj
      cases hpj
  obtain ⟨r, hr, hpr⟩ := hseat
  exact hfree r hr (hpr.symm.trans he)

theorem Exclusive.fewer (h : Exclusive s) {alive : List Proc} {jobs : List Job} (hsub : ∀ p ∈ alive, p ∈ s.alive)
    (hjobs : ∀ p ∈ alive, ∀ job ∈ s.jobs, p ∈ job.kill → ∃ job' ∈ jobs, p ∈ job'.kill) :
    Exclusive { s with alive := alive, jobs := jobs } where
  alive p hp q hq := h.alive p (hsub p hp) q (hsub q hq)
  known p hp := by
    rcases h.known p (hsub p hp) with hset | hseat | ⟨job, hjob, hk⟩
    · exact Or.inl hset
    · exact Or.inr (Or.inl hseat)
    · exact Or.inr (Or.inr (hjobs p hp job hjob hk))
  own := h.own
  seat r hr p hp := h.seat r hr p (hsub p hp)
  apart := h.apart

theorem Exclusive.acquire (h : Exclusive s) {time : ℤ} (hs : Settled s (.acquire time)) :
    Exclusive (step maxSessions maxSessionSeconds s (.acquire time)) := by
  simp only [step]
  cases hd : assigns maxSessions s (.acquire time) with
  | none => exact h
  | some display =>
    obtain ⟨hnone, hfree⟩ := assigns_some hd
    have hempty := h.free hs hd
    have hseats : ∀ r, r ∈ s.sessions → r ∈ s.seats := fun r hr => List.mem_append_left _ hr
    refine ⟨h.alive, ?_, ?_, ?_, ?_⟩
    · intro p hp
      refine (h.known p hp).imp id fun hk => hk.imp ?_ id
      intro hk
      obtain ⟨r, hr, hpr⟩ := hk
      rw [seats_none hnone] at hr
      exact ⟨r, List.mem_append_left _ hr, hpr⟩
    · intro r hr
      rcases List.mem_append.1 hr with hr | hr
      · exact h.own r (hseats r hr)
      · rw [List.mem_singleton.1 hr]
        exact fun p hp => absurd hp List.not_mem_nil
    · intro r hr p hp he
      rcases List.mem_append.1 hr with hr | hr
      · exact h.seat r (hseats r hr) p hp he
      · rw [List.mem_singleton.1 hr] at he
        exact absurd he (hempty p hp)
    · intro o ho r hr
      obtain rfl := Option.some.inj ho
      exact hfree r hr

theorem Exclusive.spawnNext (h : Exclusive s) {o : Opening} (ho : s.opening = some o) (program : Program) (next : List Program) :
    Exclusive (spawnNext s o program next) := by
  have hopen : o.session ∈ s.seats := List.mem_append_right _ (by rw [ho]; exact List.mem_singleton_self _)
  have hseats : ∀ r, r ∈ s.seats → r ∈ s.sessions ∨ r = o.session := by
    intro r hr
    rw [Broker.seats, ho] at hr
    exact (List.mem_append.1 hr).imp id List.mem_singleton.1
  -- what the session had before it still has
  have hprocs : ∀ p ∈ o.session.procs,
      p ∈ if program = .hsetroot then o.session.procs else o.session.procs ++ [⟨program, o.session.sid, o.session.display⟩] := by
    intro p hp
    split_ifs
    · exact hp
    · exact List.mem_append_left _ hp
  refine ⟨?_, ?_, ?_, ?_, ?_⟩
  · intro p hp q hq he
    rcases List.mem_append.1 hp with hp | hp
    · rcases List.mem_append.1 hq with hq | hq
      · exact h.alive p hp q hq he
      · rw [List.mem_singleton.1 hq] at he ⊢
        exact h.seat o.session hopen p hp he
    · rw [List.mem_singleton.1 hp] at he ⊢
      rcases List.mem_append.1 hq with hq | hq
      · exact (h.seat o.session hopen q hq he.symm).symm
      · rw [List.mem_singleton.1 hq]
  · intro p hp
    rcases List.mem_append.1 hp with hp | hp
    · rcases h.known p hp with hset | ⟨r, hr, hpr⟩ | hjob
      · exact Or.inl hset
      · rcases hseats r hr with hr | rfl
        · exact Or.inr (Or.inl ⟨r, List.mem_append_left _ hr, hpr⟩)
        · exact Or.inr (Or.inl ⟨_, List.mem_append_right _ (List.mem_singleton_self _), hprocs p hpr⟩)
      · exact Or.inr (Or.inr hjob)
    · rw [List.mem_singleton.1 hp]
      by_cases hset : program = .hsetroot
      · exact Or.inl hset
      · refine Or.inr (Or.inl ⟨_, List.mem_append_right _ (List.mem_singleton_self _), ?_⟩)
        simp only [if_neg hset]
        exact List.mem_append_right _ (List.mem_singleton_self _)
  · intro r hr
    rcases List.mem_append.1 hr with hr | hr
    · exact h.own r (List.mem_append_left _ hr)
    · rw [List.mem_singleton.1 hr]
      intro p hp
      dsimp only at hp
      split_ifs at hp
      · exact h.own _ hopen p hp
      · rcases List.mem_append.1 hp with hp | hp
        · exact h.own _ hopen p hp
        · rw [List.mem_singleton.1 hp]
  · intro r hr p hp he
    rcases List.mem_append.1 hr with hr | hr
    · rcases List.mem_append.1 hp with hp | hp
      · exact h.seat r (List.mem_append_left _ hr) p hp he
      · rw [List.mem_singleton.1 hp] at he
        exact absurd he.symm (h.apart o ho r hr)
    · rw [List.mem_singleton.1 hr] at he ⊢
      rcases List.mem_append.1 hp with hp | hp
      · exact h.seat _ hopen p hp he
      · rw [List.mem_singleton.1 hp]
  · intro o' ho' r hr
    obtain rfl := Option.some.inj ho'
    exact h.apart o ho r hr

theorem Exclusive.raise (h : Exclusive s) (hs : Settled s .raise) : Exclusive { s with opening := none } := by
  have hseats : ∀ r, r ∈ ({ s with opening := none } : Broker).seats → r ∈ s.seats := by
    intro r hr
    rw [seats_none rfl] at hr
    exact List.mem_append_left _ hr
  refine ⟨h.alive, ?_, fun r hr => h.own r (hseats r hr), fun r hr => h.seat r (hseats r hr), nofun⟩
  intro p hp
  rcases h.known p hp with hset | ⟨r, hr, hpr⟩ | hjob
  · exact Or.inl hset
  · rcases List.mem_append.1 hr with hr | hr
    · exact Or.inr (Or.inl ⟨r, List.mem_append_left _ hr, hpr⟩)
    · obtain ⟨o, ho, rfl⟩ := List.mem_map.1 hr
      rw [hs o (Option.mem_toList.1 ho)] at hpr
      cases hpr
  · exact Or.inr (Or.inr hjob)

theorem Exclusive.register (h : Exclusive s) {session : Session} (ho : s.opening = some ⟨session, []⟩) (time : ℤ) :
    Exclusive { s with sessions := s.sessions ++ [{ session with started := time }], opening := none } := by
  -- the seats are the same, up to the time
  have hseats : ∀ r, r ∈ s.sessions ++ [{ session with started := time }] →
      ∃ r' ∈ s.seats, r'.sid = r.sid ∧ r'.display = r.display ∧ r'.procs = r.procs := by
    intro r hr
    rcases List.mem_append.1 hr with hr | hr
    · exact ⟨r, List.mem_append_left _ hr, rfl, rfl, rfl⟩
    · rw [List.mem_singleton.1 hr]
      exact ⟨session, List.mem_append_right _ (by rw [ho]; exact List.mem_singleton_self _), rfl, rfl, rfl⟩
  refine ⟨h.alive, ?_, ?_, ?_, nofun⟩
  · intro p hp
    rcases h.known p hp with hset | ⟨r, hr, hpr⟩ | hjob
    · exact Or.inl hset
    · refine Or.inr (Or.inl ?_)
      rw [Broker.seats, ho] at hr
      rw [seats_none rfl]
      rcases List.mem_append.1 hr with hr | hr
      · exact ⟨r, List.mem_append_left _ hr, hpr⟩
      · rw [List.mem_singleton.1 hr] at hpr
        exact ⟨_, List.mem_append_right _ (List.mem_singleton_self _), hpr⟩
    · exact Or.inr (Or.inr hjob)
  · intro r hr
    rw [seats_none rfl] at hr
    obtain ⟨r', hr', -, hd, hp⟩ := hseats r hr
    rw [← hd, ← hp]
    exact h.own r' hr'
  · intro r hr
    rw [seats_none rfl] at hr
    obtain ⟨r', hr', hsid, hd, -⟩ := hseats r hr
    rw [← hd, ← hsid]
    exact h.seat r' hr'

theorem Exclusive.remove (h : Exclusive s) (ho : s.opening = none) (sel : Session → Bool) : Exclusive (remove s sel) := by
  have hseats : ∀ r, r ∈ (Kasm.remove s sel).seats → r ∈ s.seats := by
    intro r hr
    rw [seats_none (show (Kasm.remove s sel).opening = none from ho)] at hr
    exact List.mem_append_left _ (List.mem_of_mem_filter hr)
  refine ⟨h.alive, ?_, fun r hr => h.own r (hseats r hr), fun r hr => h.seat r (hseats r hr), ?_⟩
  · intro p hp
    rcases h.known p hp with hset | ⟨r, hr, hpr⟩ | ⟨job, hjob, hk⟩
    · exact Or.inl hset
    · rw [seats_none ho] at hr
      by_cases hsel : sel r = true
      · exact Or.inr (Or.inr ⟨jobOf r, List.mem_append_right _ (List.mem_map_of_mem (List.mem_filter.2 ⟨hr, hsel⟩)), hpr⟩)
      · refine Or.inr (Or.inl ⟨r, List.mem_append_left _ (List.mem_filter.2 ⟨hr, ?_⟩), hpr⟩)
        rw [Bool.not_eq_true] at hsel
        rw [hsel]
        rfl
    · exact Or.inr (Or.inr ⟨job, List.mem_append_left _ hjob, hk⟩)
  · intro o ho'
    have hnone : (Kasm.remove s sel).opening = none := ho
    rw [hnone] at ho'
    cases ho'

theorem Exclusive.signalNext (h : Exclusive s) {j : ℕ} {job : Job} (hj : s.jobs[j]? = some job) : Exclusive (signalNext s j job) := by
  have hset : ∀ (new : Job) (p : Proc), (p ∈ job.kill → p ∈ new.kill) → ∀ job' ∈ s.jobs, p ∈ job'.kill →
      ∃ job'' ∈ s.jobs.set j new, p ∈ job''.kill := by
    intro new p hnew job' hjob' hp
    obtain ⟨i, hi⟩ := List.mem_iff_getElem?.1 hjob'
    by_cases hij : j = i
    · subst hij
      obtain rfl : job = job' := Option.some.inj (hj.symm.trans hi)
      exact ⟨new, List.mem_iff_getElem?.2 ⟨j, List.getElem?_set_self (List.getElem?_eq_some_iff.1 hj).1⟩, hnew hp⟩
    · exact ⟨job', List.mem_iff_getElem?.2 ⟨i, by rw [List.getElem?_set_ne hij, hi]⟩, hp⟩
  obtain ⟨term, kill⟩ := job
  cases term with
  | cons p term => exact h.fewer (fun _ hp => hp) fun p _ => hset ⟨term, kill⟩ p id
  | nil =>
    cases kill with
    | nil => exact h
    | cons q kill =>
      refine h.fewer (fun p hp => List.mem_of_mem_filter hp) fun p hp => hset ⟨[], kill⟩ p fun hk => ?_
      have hne := (List.mem_filter.1 hp).2
      rcases List.mem_cons.1 hk with rfl | hk
      · simp at hne
      · exact hk

theorem Exclusive.step (h : Exclusive s) {e : Event} (hs : Settled s e) : Exclusive (step maxSessions maxSessionSeconds s e) := by
  cases e with
  | acquire time => exact h.acquire hs
  | spawn =>
    simp only [Kasm.step]
    split
    · rename_i session program next ho
      exact h.spawnNext ho program next
    · exact h
  | raise =>
    simp only [Kasm.step]
    split
    · exact h.raise hs
    · exact h
  | register time =>
    simp only [Kasm.step]
    split
    · rename_i session ho
      exact h.register ho time
    · exact h
  | close sid =>
    simp only [Kasm.step]
    split_ifs with ho
    · exact h
    · exact h.remove (Option.not_isSome_iff_eq_none.1 ho) _
  | reap now =>
    simp only [Kasm.step]
    split_ifs with ho
    · exact h
    · exact h.remove (Option.not_isSome_iff_eq_none.1 ho) _
  | signal j =>
    simp only [Kasm.step]
    cases hj : s.jobs[j]? with
    | none => exact h
    | some job => exact h.signalNext hj
  | exit p => exact h.fewer (fun q hq => List.mem_of_mem_filter hq) fun q _ job hjob hk => ⟨job, hjob, hk⟩

end Step

/-- One session, from its start until it is in the table. -/
def openOne (time : ℤ) : List Event := [.acquire time, .spawn, .spawn, .spawn, .spawn, .register time]

/-- A session is closed and killed, and the next one gets its display. -/
def inTurn : List Event :=
  openOne 0 ++ [.exit ⟨.hsetroot, ⟨0, 1⟩, 2⟩, .close ⟨0, 1⟩] ++ List.replicate 6 (.signal 0) ++ openOne 60

end Captivo.Kasm
