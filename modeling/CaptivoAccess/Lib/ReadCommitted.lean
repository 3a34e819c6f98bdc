import CaptivoAccess.Lib.Run
import CaptivoAccess.Lib.Txn

/-! A database server that runs the transactions of many calls at once. A statement sees what
has been committed and what its own transaction has written. A write that clashes with
one of an open transaction waits until that one has ended, and its statement is then made
anew. What the calls leave behind is a sequence of committed transactions, one after the
other, in which every write finds its row as its statement found it. -/

namespace Lib.ReadCommitted

open Lib.Txn Lib.Run

/-- A call: it reads what is committed, and then runs one transaction. -/
inductive Call (D W R E A : Type) where
  | done
  | read (k : D → Call D W R E A)
  | tx (aborted : Bool) (body : Prog D W R E A)

/-- A transaction that was committed: whose it was, its writes, and what it returned. -/
structure Commit (W A : Type) where
  call : ℕ
  writes : List W
  value : A

structure Server (D W R E A : Type) where
  db : D
  /-- The writes of the open transactions, each with its call. -/
  pending : List (ℕ × W)
  log : List (Commit W A)
  calls : ℕ → Call D W R E A

/-- A call takes its next step, or its connection is lost. -/
inductive Event where
  | step (i : ℕ)
  | lost (i : ℕ)
  deriving DecidableEq

variable {D W R E A : Type}

namespace Server

variable (apply : D → W → D) (clash : W → W → Bool) (s : Server D W R E A) (i : ℕ)

/-- What the transaction of the call has written. -/
def journal : List W := (s.pending.filter fun p => p.1 = i).map Prod.snd

def view : D := (s.journal i).foldl apply s.db

/-- A write has to wait for the transaction of another call. -/
def blocked (ws : List W) : Bool := s.pending.any fun p => p.1 ≠ i && ws.any fun w => clash w p.2

/-- The transaction of the call is rolled back, and the call ends. -/
def rollback : Server D W R E A :=
  { s with pending := s.pending.filter (fun p => p.1 ≠ i), calls := Function.update s.calls i .done }

def commit (value : A) : Server D W R E A :=
  { db := s.view apply i, pending := s.pending.filter (fun p => p.1 ≠ i), log := s.log ++ [⟨i, s.journal i, value⟩],
    calls := Function.update s.calls i .done }

/-- A commit of a transaction that is aborted is a rollback. -/
def stepTx (aborted : Bool) : Prog D W R E A → Server D W R E A
  | .ret value => if aborted then s.rollback i else s.commit apply i value
  | .throw _ => s.rollback i
  | .stmt q k =>
    match answer (s.view apply i) aborted q with
    | none => { s with calls := Function.update s.calls i (.tx true (k none)) }
    | some (ws, r) =>
      if s.blocked clash i ws then s
      else { s with pending := s.pending ++ ws.map fun w => (i, w), calls := Function.update s.calls i (.tx aborted (k (some r))) }

def step : Event → Server D W R E A
  | .step i =>
    match s.calls i with
    | .done => s
    | .read k => { s with calls := Function.update s.calls i (k s.db) }
    | .tx aborted body => s.stepTx apply clash i aborted body
  | .lost i => s.rollback i

def run (events : List Event) : Server D W R E A := events.foldl (step apply clash) s

end Server

/-- The server before any of the calls. -/
def start (d : D) (calls : ℕ → Call D W R E A) : Server D W R E A := ⟨d, [], [], calls⟩

/-! What is committed stays committed. -/

section Log

variable (apply : D → W → D) (clash : W → W → Bool) (s : Server D W R E A)

theorem log_stepTx (i : ℕ) (aborted : Bool) (body : Prog D W R E A) : s.log <+: (s.stepTx apply clash i aborted body).log := by
  cases body with
  | throw e => exact List.prefix_rfl
  | ret value =>
    cases aborted with
    | true => exact List.prefix_rfl
    | false => exact List.prefix_append _ _
  | stmt q k =>
    unfold Server.stepTx
    dsimp only
    split
    · exact List.prefix_rfl
    · split <;> exact List.prefix_rfl

theorem log_step (e : Event) : s.log <+: (s.step apply clash e).log := by
  cases e with
  | lost i => exact List.prefix_rfl
  | step i =>
    unfold Server.step
    dsimp only
    split
    · exact List.prefix_rfl
    · exact List.prefix_rfl
    · exact log_stepTx apply clash s i _ _

theorem log_run (events : List Event) : s.log <+: (s.run apply clash events).log := by
  unfold Server.run
  induction events generalizing s with
  | nil => exact List.prefix_rfl
  | cons e events ih => exact (log_step apply clash s e).trans (ih _)

theorem run_append (es es' : List Event) : s.run apply clash (es ++ es') = (s.run apply clash es).run apply clash es' :=
  List.foldl_append

end Log

section Rule

variable (apply : D → W → D) (clash : W → W → Bool) (Inv : D → Prop) (Fits : D → W → Prop)

/-- A write that fits finds its row as it expects it. It keeps the invariant, and whether another one fits does not depend on it,
unless the two clash. -/
structure Rules : Prop where
  symm : ∀ w w', clash w w' = clash w' w
  keeps : ∀ d w, Inv d → Fits d w → Inv (apply d w)
  indep : ∀ d w w', Inv d → Fits d w' → clash w w' = false → (Fits (apply d w') w ↔ Fits d w)

/-- Where the transaction has written `js`, what its statements write fits and clashes with nothing that it wrote itself, and what it
returns is as `Q` has it. -/
def Sound (Q : List W → A → Prop) : List W → Prog D W R E A → Prop
  | js, .ret a => Q js a
  | _, .throw _ => True
  | js, .stmt q k => ∀ d, Inv d → ∀ ws r, q d = some (ws, r) →
      (∀ w ∈ ws, Fits d w) ∧ (js ++ ws).Pairwise (fun w w' => clash w w' = false) ∧ Sound Q (js ++ ws) (k (some r))

/-- The same for a call; an aborted transaction will not be committed. -/
def CallSound (Q : List W → A → Prop) (js : List W) : Call D W R E A → Prop
  | .done => True
  | .read k => js = [] ∧ ∀ d, Inv d → CallSound Q js (k d)
  | .tx true _ => True
  | .tx false body => Sound clash Inv Fits Q js body

/-- What is kept of the server: what is pending fits and does not clash, and what was committed fits one after the other. -/
structure Sane (Q : ℕ → List W → A → Prop) (d₀ : D) (s : Server D W R E A) : Prop where
  inv : Inv s.db
  fits : ∀ p ∈ s.pending, Fits s.db p.2
  apart : s.pending.Pairwise fun p q => clash p.2 q.2 = false
  calls : ∀ i, CallSound clash Inv Fits (Q i) (s.journal i) (s.calls i)
  db_eq : s.db = (s.log.flatMap Commit.writes).foldl apply d₀
  replay : Meets apply Fits d₀ (s.log.flatMap Commit.writes)
  values : ∀ c ∈ s.log, Q c.call c.writes c.value

end Rule

section Proofs

variable {apply : D → W → D} {clash : W → W → Bool} {Inv : D → Prop} {Fits : D → W → Prop} {Q : ℕ → List W → A → Prop}
  {d₀ : D} {s : Server D W R E A}

/-- Writes that fit and do not clash fit one after the other, and leave alone what clashes with none of them. -/
theorem Rules.all (h : Rules apply clash Inv Fits) {js : List W} (hapart : js.Pairwise fun w w' => clash w w' = false) {d : D}
    (hinv : Inv d) (hfits : ∀ w ∈ js, Fits d w) :
    Meets apply Fits d js ∧ Inv (js.foldl apply d) ∧
      ∀ w, (∀ w' ∈ js, clash w w' = false) → (Fits (js.foldl apply d) w ↔ Fits d w) := by
  induction js generalizing d with
  | nil => exact ⟨trivial, hinv, fun _ _ => Iff.rfl⟩
  | cons w' js ih =>
    rw [List.pairwise_cons] at hapart
    have hw' := hfits w' List.mem_cons_self
    have hnext : ∀ w ∈ js, Fits (apply d w') w := by
      intro w hw
      exact (h.indep d w w' hinv hw' ((h.symm w w').trans (hapart.1 w hw))).2 (hfits w (List.mem_cons_of_mem _ hw))
    obtain ⟨hmeets, hinv', hleaves⟩ := ih hapart.2 (h.keeps d w' hinv hw') hnext
    refine ⟨⟨hw', hmeets⟩, hinv', fun w hw => ?_⟩
    rw [List.foldl_cons, hleaves w fun w'' hw'' => hw w'' (List.mem_cons_of_mem _ hw'')]
    exact h.indep d w w' hinv hw' (hw w' List.mem_cons_self)

/-! What is pending of one call. -/

theorem mem_journal {i : ℕ} {w : W} : w ∈ s.journal i ↔ (i, w) ∈ s.pending := by
  simp [Server.journal]

theorem Sane.journal_apart (h : Sane apply clash Inv Fits Q d₀ s) (i : ℕ) :
    (s.journal i).Pairwise fun w w' => clash w w' = false :=
  List.pairwise_map.2 (h.apart.sublist List.filter_sublist)

theorem Sane.view (hrules : Rules apply clash Inv Fits) (h : Sane apply clash Inv Fits Q d₀ s) (i : ℕ) :
    Meets apply Fits s.db (s.journal i) ∧ Inv (s.view apply i) ∧
      ∀ w, (∀ w' ∈ s.journal i, clash w w' = false) → (Fits (s.view apply i) w ↔ Fits s.db w) :=
  hrules.all (h.journal_apart i) h.inv fun _ hw => h.fits _ (mem_journal.1 hw)

theorem Sane.clash_false (hrules : Rules apply clash Inv Fits) (h : Sane apply clash Inv Fits Q d₀ s) {p q : ℕ × W}
    (hp : p ∈ s.pending) (hq : q ∈ s.pending) (hne : p ≠ q) : clash p.2 q.2 = false := by
  have : Std.Symm fun p q : ℕ × W => clash p.2 q.2 = false := ⟨fun a b hab => (hrules.symm b.2 a.2).trans hab⟩
  exact h.apart.forall hp hq hne

variable {c : Call D W R E A}

theorem Sane.calls_update {i : ℕ} {pending : List (ℕ × W)} (h : Sane apply clash Inv Fits Q d₀ s)
    (hothers : ∀ j ≠ i, pending.filter (fun p => p.1 = j) = s.pending.filter fun p => p.1 = j)
    (hself : CallSound clash Inv Fits (Q i) ((pending.filter fun p => p.1 = i).map Prod.snd) c) (j : ℕ) :
    CallSound clash Inv Fits (Q j) ((pending.filter fun p => p.1 = j).map Prod.snd) (Function.update s.calls i c j) := by
  by_cases hj : j = i
  · rw [hj, Function.update_self]
    exact hself
  · rw [Function.update_of_ne hj, hothers j hj]
    exact h.calls j

theorem filter_others {i j : ℕ} (hj : j ≠ i) (pending : List (ℕ × W)) :
    (pending.filter fun p => p.1 ≠ i).filter (fun p => p.1 = j) = pending.filter fun p => p.1 = j := by
  rw [List.filter_filter]
  refine List.filter_congr fun p _ => ?_
  by_cases hp : p.1 = j
  · simp [hp, hj]
  · simp [hp]

theorem Sane.rollback (h : Sane apply clash Inv Fits Q d₀ s) (i : ℕ) : Sane apply clash Inv Fits Q d₀ (s.rollback i) where
  inv := h.inv
  fits p hp := h.fits p (List.mem_of_mem_filter hp)
  apart := h.apart.sublist List.filter_sublist
  calls := h.calls_update (fun _ hj => filter_others hj _) trivial
  db_eq := h.db_eq
  replay := h.replay
  values := h.values

theorem Sane.commit (hrules : Rules apply clash Inv Fits) (h : Sane apply clash Inv Fits Q d₀ s) {i : ℕ} {value : A}
    (hvalue : Q i (s.journal i) value) : Sane apply clash Inv Fits Q d₀ (s.commit apply i value) := by
  obtain ⟨hmeets, hinv, hleaves⟩ := h.view hrules i
  have hlog : (s.commit apply i value).log.flatMap Commit.writes = s.log.flatMap Commit.writes ++ s.journal i := by
    simp [Server.commit]
  refine ⟨hinv, ?_, h.apart.sublist List.filter_sublist, h.calls_update (fun _ hj => filter_others hj _) trivial, ?_, ?_, ?_⟩
  · intro p hp
    obtain ⟨hmem, hne⟩ := List.mem_filter.1 hp
    refine (hleaves p.2 fun w hw => ?_).2 (h.fits p hmem)
    have hentries : (i, w) ≠ p := by
      intro he
      rw [← he] at hne
      simp at hne
    rw [hrules.symm]
    exact h.clash_false hrules (mem_journal.1 hw) hmem hentries
  · rw [hlog, List.foldl_append, ← h.db_eq]
    rfl
  · rw [hlog, meets_append, ← h.db_eq]
    exact ⟨h.replay, hmeets⟩
  · intro c hc
    rcases List.mem_append.1 hc with hc | hc
    · exact h.values c hc
    · rw [List.mem_singleton.1 hc]
      exact hvalue

theorem Sane.write (hrules : Rules apply clash Inv Fits) (h : Sane apply clash Inv Fits Q d₀ s) {i : ℕ} {ws : List W}
    (hfits : ∀ w ∈ ws, Fits (s.view apply i) w) (hown : (s.journal i ++ ws).Pairwise fun w w' => clash w w' = false)
    (hfree : ¬ s.blocked clash i ws = true) (hc : CallSound clash Inv Fits (Q i) (s.journal i ++ ws) c) :
    Sane apply clash Inv Fits Q d₀
      { s with pending := s.pending ++ ws.map fun w => (i, w), calls := Function.update s.calls i c } := by
  obtain ⟨-, -, hleaves⟩ := h.view hrules i
  obtain ⟨-, hws, hcross⟩ := List.pairwise_append.1 hown
  refine ⟨h.inv, ?_, ?_, h.calls_update ?_ ?_, h.db_eq, h.replay, h.values⟩
  · intro p hp
    rcases List.mem_append.1 hp with hp | hp
    · exact h.fits p hp
    · obtain ⟨w, hw, rfl⟩ := List.mem_map.1 hp
      exact (hleaves w fun w' hw' => (hrules.symm w w').trans (hcross w' hw' w hw)).1 (hfits w hw)
  · refine List.pairwise_append.2 ⟨h.apart, List.pairwise_map.2 hws, ?_⟩
    intro p hp q hq
    obtain ⟨w, hw, rfl⟩ := List.mem_map.1 hq
    by_cases hi : p.1 = i
    · exact hcross p.2 (mem_journal.2 (hi ▸ hp)) w hw
    · rw [hrules.symm]
      by_contra hclash
      refine hfree (List.any_eq_true.2 ⟨p, hp, ?_⟩)
      rw [Bool.and_eq_true]
      exact ⟨decide_eq_true hi, List.any_eq_true.2 ⟨w, hw, Bool.of_not_eq_false hclash⟩⟩
  · intro j hj
    have hnone : (ws.map fun w => (i, w)).filter (fun p => p.1 = j) = [] := by
      refine List.filter_eq_nil_iff.2 fun p hp => ?_
      obtain ⟨w, -, rfl⟩ := List.mem_map.1 hp
      simpa using hj.symm
    rw [List.filter_append, hnone, List.append_nil]
  · have hall : (ws.map fun w => (i, w)).filter (fun p => p.1 = i) = ws.map fun w => (i, w) := by
      refine List.filter_eq_self.2 fun p hp => ?_
      obtain ⟨w, -, rfl⟩ := List.mem_map.1 hp
      simp
    rw [List.filter_append, hall, List.map_append, List.map_map]
    simpa [Function.comp_def, Server.journal] using hc

theorem Sane.goOn (h : Sane apply clash Inv Fits Q d₀ s) {i : ℕ}
    (hc : CallSound clash Inv Fits (Q i) (s.journal i) c) :
    Sane apply clash Inv Fits Q d₀ { s with calls := Function.update s.calls i c } :=
  ⟨h.inv, h.fits, h.apart, h.calls_update (fun _ _ => rfl) hc, h.db_eq, h.replay, h.values⟩

theorem Sane.stepTx (hrules : Rules apply clash Inv Fits) (h : Sane apply clash Inv Fits Q d₀ s) {i : ℕ} {aborted : Bool}
    {body : Prog D W R E A} (hi : s.calls i = .tx aborted body) : Sane apply clash Inv Fits Q d₀ (s.stepTx apply clash i aborted body) := by
  have hcall := h.calls i
  rw [hi] at hcall
  cases body with
  | throw e => exact h.rollback i
  | ret value =>
    cases aborted with
    | true => exact h.rollback i
    | false => exact h.commit hrules hcall
  | stmt q k =>
    cases hanswer : answer (s.view apply i) aborted q with
    | none =>
      simp only [Server.stepTx, hanswer]
      exact h.goOn (show CallSound clash Inv Fits (Q i) (s.journal i) (.tx true (k none)) from trivial)
    | some out =>
      obtain ⟨ws, r⟩ := out
      cases aborted with
      | true => cases hanswer
      | false =>
        obtain ⟨hfits, hown, hnext⟩ := hcall _ (h.view hrules i).2.1 ws r hanswer
        simp only [Server.stepTx, hanswer]
        split_ifs with hblocked
        · exact h
        · exact h.write hrules hfits hown hblocked hnext

theorem Sane.step (hrules : Rules apply clash Inv Fits) (h : Sane apply clash Inv Fits Q d₀ s) (e : Event) :
    Sane apply clash Inv Fits Q d₀ (s.step apply clash e) := by
  cases e with
  | lost i => exact h.rollback i
  | step i =>
    cases hi : s.calls i with
    | done =>
      simp only [Server.step, hi]
      exact h
    | read k =>
      have hcall := h.calls i
      rw [hi] at hcall
      simp only [Server.step, hi]
      exact h.goOn (hcall.2 s.db h.inv)
    | tx aborted body =>
      simp only [Server.step, hi]
      exact h.stepTx hrules hi

/-- In every run what is committed fits one after the other, and every transaction has written and returned what its program says. -/
theorem run_sane (hrules : Rules apply clash Inv Fits) (hinv : Inv d₀) {calls : ℕ → Call D W R E A}
    (hcalls : ∀ i, CallSound clash Inv Fits (Q i) [] (calls i)) (events : List Event) :
    Sane apply clash Inv Fits Q d₀ ((start d₀ calls).run apply clash events) := by
  have hstart : Sane apply clash Inv Fits Q d₀ (start d₀ calls) := ⟨hinv, nofun, .nil, hcalls, rfl, trivial, nofun⟩
  have hstep : ∀ (s : Server D W R E A) (e : Event), Sane apply clash Inv Fits Q d₀ s → True →
      Sane apply clash Inv Fits Q d₀ (s.step apply clash e) := fun s e hs _ => hs.step hrules e
  exact invariant hstep hstart (meets_of_always (fun _ _ => trivial) _ events)

end Proofs

end Lib.ReadCommitted
