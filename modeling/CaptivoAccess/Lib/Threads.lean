import CaptivoAccess.Lib.Run
import CaptivoAccess.Lib.Txn

/-! Threads over one database, one statement at a time. A statement acts on the
database as it finds it, and what it found decides how the thread goes on. Which
thread takes the next step is left to a schedule. -/

namespace Lib.Threads

variable {D L : Type}

/-- A statement with what it is called, what it does, and the thread after it. -/
inductive Thread (D L : Type) where
  | done
  | act (label : L) (f : D → D) (next : D → Thread D L)

structure Pool (D L : Type) where
  db : D
  threads : ℕ → Thread D L

namespace Pool

/-- What thread `i` does next. -/
def label (p : Pool D L) (i : ℕ) : Option L :=
  match p.threads i with
  | .done => none
  | .act l _ _ => some l

def step (p : Pool D L) (i : ℕ) : Pool D L :=
  match p.threads i with
  | .done => p
  | .act _ f next => ⟨f p.db, Function.update p.threads i (next p.db)⟩

def run (p : Pool D L) (schedule : List ℕ) : Pool D L := schedule.foldl step p

/-- The next statement of thread `i` meets a condition on its name and the database. -/
def Guarded (ok : L → D → Prop) (p : Pool D L) (i : ℕ) : Prop := ∀ l ∈ p.label i, ok l p.db

instance (ok : L → D → Prop) [∀ l d, Decidable (ok l d)] (p : Pool D L) (i : ℕ) : Decidable (Guarded ok p i) :=
  inferInstanceAs (Decidable (∀ l ∈ p.label i, ok l p.db))

theorem guarded_of_label {ok : L → D → Prop} {p : Pool D L} {i : ℕ} {l : L} (hl : p.label i = some l) (h : ok l p.db) :
    Guarded ok p i := by
  intro l' hl'
  obtain rfl : l = l' := Option.some.inj (hl.symm.trans hl')
  exact h

theorem run_threads_of_notMem {p : Pool D L} {schedule : List ℕ} {j : ℕ} (hj : j ∉ schedule) :
    (p.run schedule).threads j = p.threads j := by
  induction schedule generalizing p with
  | nil => rfl
  | cons i schedule ih =>
    rw [List.mem_cons, not_or] at hj
    have hstep : (p.step i).threads j = p.threads j := by
      unfold step
      split
      · rfl
      · exact Function.update_of_ne hj.1 _ _
    exact (ih hj.2).trans hstep

end Pool

def Thread.isDone : Thread D L → Bool
  | .done => true
  | .act _ _ _ => false

theorem Thread.eq_done {t : Thread D L} (h : t.isDone = true) : t = .done := by
  cases t with
  | done => rfl
  | act l f next => cases h

/-- The database once the thread has ended, where no other takes a step. -/
def Thread.alone : Thread D L → D → D
  | .done, d => d
  | .act _ f next, d => (next d).alone (f d)

/-- Every statement that the thread can come to satisfies `P`. -/
def Thread.All (P : L → (D → D) → Prop) : Thread D L → Prop
  | .done => True
  | .act l f next => P l f ∧ ∀ d, (next d).All P

section Rule

variable {P : L → (D → D) → Prop} {ok : L → D → Prop} {Inv : D → Prop}

theorem all_step {p : Pool D L} (h : ∀ i, (p.threads i).All P) (i j : ℕ) : ((p.step i).threads j).All P := by
  unfold Pool.step
  cases hi : p.threads i with
  | done => exact h j
  | act l f next =>
    have hnext := h i
    rw [hi] at hnext
    by_cases hj : j = i
    · rw [hj]
      simpa only [Function.update_self] using hnext.2 p.db
    · simpa only [Function.update_of_ne hj] using h j

/-- What every statement keeps where it meets the condition, every interleaving keeps. -/
theorem run_invariant (hP : ∀ l f, P l f → ∀ d, ok l d → Inv d → Inv (f d)) {p : Pool D L}
    (hall : ∀ i, (p.threads i).All P) (hinv : Inv p.db) {schedule : List ℕ}
    (hrun : Lib.Run.Meets Pool.step (Pool.Guarded ok) p schedule) : Inv (p.run schedule).db := by
  have hstep : ∀ (q : Pool D L) (i : ℕ), (Inv q.db ∧ ∀ j, (q.threads j).All P) → Pool.Guarded ok q i →
      Inv (q.step i).db ∧ ∀ j, ((q.step i).threads j).All P := by
    rintro q i ⟨hq, hqall⟩ hok
    refine ⟨?_, all_step hqall i⟩
    cases hi : q.threads i with
    | done => simpa only [Pool.step, hi] using hq
    | act l f next =>
      have hl : q.label i = some l := by simp only [Pool.label, hi]
      have hPi := hqall i
      rw [hi] at hPi
      simpa only [Pool.step, hi] using hP l f hPi.1 q.db (hok l hl) hq
  exact (Lib.Run.invariant hstep ⟨hinv, hall⟩ hrun).1

theorem all_run {p : Pool D L} (h : ∀ i, (p.threads i).All P) (schedule : List ℕ) (j : ℕ) :
    ((p.run schedule).threads j).All P := by
  unfold Pool.run
  induction schedule generalizing p with
  | nil => exact h j
  | cons i schedule ih => exact ih fun k => all_step h i k

end Rule

/-! Threads that rely on what they have read. What a thread knows of the database when it
reads has to hold of every later one, where `Later` says how the others change it. -/

section Rely

variable {Later : D → D → Prop} {Inv : D → Prop} {ok : L → D → Prop} {P : L → (D → D) → (D → Thread D L) → D → Prop}

/-- Every statement that the thread comes to satisfies `P`, in any database later than the one it goes on from. -/
def Thread.Relies (Later : D → D → Prop) (Inv : D → Prop) (ok : L → D → Prop)
    (P : L → (D → D) → (D → Thread D L) → D → Prop) : D → Thread D L → Prop
  | _, .done => True
  | d, .act l f next =>
    ∀ d', Later d d' → Inv d' → P l f next d' ∧ (ok l d' → (next d').Relies Later Inv ok P (f d'))

theorem Thread.Relies.later (htrans : ∀ a b c, Later a b → Later b c → Later a c) {d d' : D} {t : Thread D L}
    (h : t.Relies Later Inv ok P d) (hlater : Later d d') : t.Relies Later Inv ok P d' := by
  cases t with
  | done => trivial
  | act l f next => exact fun d'' hd'' => h d'' (htrans _ _ _ hlater hd'')

/-- What every statement keeps where it meets the condition and what it relies on holds, every interleaving keeps, and so
it does what is kept of the whole pool. -/
theorem run_rely_pool {J : Pool D L → Prop} {meets : Pool D L → ℕ → Prop} (hrefl : ∀ d, Later d d)
    (htrans : ∀ a b c, Later a b → Later b c → Later a c)
    (hP : ∀ l f next d, P l f next d → ok l d → Inv d → Inv (f d) ∧ Later d (f d))
    (hmeets : ∀ q i, meets q i → Pool.Guarded ok q i)
    (hJ : ∀ q i l f next, q.threads i = .act l f next → P l f next q.db → Inv q.db → meets q i → J q → J (q.step i))
    {p : Pool D L} (hall : ∀ i, (p.threads i).Relies Later Inv ok P p.db) (hinv : Inv p.db) (hp : J p) {schedule : List ℕ}
    (hrun : Lib.Run.Meets Pool.step meets p schedule) : Inv (p.run schedule).db ∧ J (p.run schedule) := by
  have hstep : ∀ (q : Pool D L) (i : ℕ), (Inv q.db ∧ J q ∧ ∀ j, (q.threads j).Relies Later Inv ok P q.db) → meets q i →
      Inv (q.step i).db ∧ J (q.step i) ∧ ∀ j, ((q.step i).threads j).Relies Later Inv ok P (q.step i).db := by
    rintro q i ⟨hq, hJq, hqall⟩ hi
    cases ht : q.threads i with
    | done =>
      rw [show q.step i = q by rw [Pool.step, ht]]
      exact ⟨hq, hJq, hqall⟩
    | act l f next =>
      have hok : ok l q.db := hmeets q i hi l (by simp only [Pool.label, ht, Option.mem_some_iff])
      have hrelies := hqall i
      rw [ht] at hrelies
      obtain ⟨hstmt, hnext⟩ := hrelies q.db (hrefl q.db) hq
      obtain ⟨hinv', hlater⟩ := hP l f next q.db hstmt hok hq
      refine ⟨?_, hJ q i l f next ht hstmt hq hi hJq, fun j => ?_⟩
      · simpa only [Pool.step, ht] using hinv'
      · simp only [Pool.step, ht]
        by_cases hj : j = i
        · rw [hj, Function.update_self]
          exact hnext hok
        · rw [Function.update_of_ne hj]
          exact (hqall j).later htrans hlater
  obtain ⟨hinv', hJ', -⟩ := Lib.Run.invariant hstep ⟨hinv, hp, hall⟩ hrun
  exact ⟨hinv', hJ'⟩

theorem run_rely (hrefl : ∀ d, Later d d) (htrans : ∀ a b c, Later a b → Later b c → Later a c)
    (hP : ∀ l f next d, P l f next d → ok l d → Inv d → Inv (f d) ∧ Later d (f d)) {p : Pool D L}
    (hall : ∀ i, (p.threads i).Relies Later Inv ok P p.db) (hinv : Inv p.db) {schedule : List ℕ}
    (hrun : Lib.Run.Meets Pool.step (Pool.Guarded ok) p schedule) : Inv (p.run schedule).db :=
  (run_rely_pool (J := fun _ => True) hrefl htrans hP (fun _ _ h => h) (fun _ _ _ _ _ _ _ _ _ h => h) hall hinv trivial hrun).1

end Rely

/-! Threads that do not end before they have done something. -/

section Owes

variable {Q : D → Prop}

/-- On every way to its end the thread comes to a statement that brings `Q` about. -/
def Thread.Owes (Q : D → Prop) : Thread D L → Prop
  | .done => False
  | .act _ f next => (∀ d, Q (f d)) ∨ ∀ d, (next d).Owes Q

theorem run_owes {p : Pool D L} (hall : ∀ i, (p.threads i).All fun _ f => ∀ d, Q d → Q (f d)) {i : ℕ}
    (h : Q p.db ∨ (p.threads i).Owes Q) (schedule : List ℕ) : Q (p.run schedule).db ∨ ((p.run schedule).threads i).Owes Q := by
  induction schedule generalizing p with
  | nil => exact h
  | cons j schedule ih =>
    refine ih (all_step hall j) ?_
    cases ht : p.threads j with
    | done =>
      rw [show p.step j = p by rw [Pool.step, ht]]
      exact h
    | act l f next =>
      have hkeep := hall j
      rw [ht] at hkeep
      simp only [Pool.step, ht]
      rcases h with hQ | howes
      · exact .inl (hkeep.1 p.db hQ)
      · by_cases hj : i = j
        · subst hj
          rw [ht] at howes
          rw [Function.update_self]
          exact howes.imp (fun hf => hf p.db) fun hnext => hnext p.db
        · rw [Function.update_of_ne hj]
          exact .inr howes

end Owes

/-! What the first threads of a pool weigh together. -/

section Load

variable {weight : Thread D L → ℕ} {n : ℕ} {p : Pool D L} {i : ℕ}

def Pool.load (weight : Thread D L → ℕ) (n : ℕ) (p : Pool D L) : ℕ := ∑ i ∈ Finset.range n, weight (p.threads i)

theorem load_step {l : L} {f : D → D} {next : D → Thread D L} (hi : i < n) (ht : p.threads i = .act l f next) :
    (p.step i).load weight n + weight (.act l f next) = p.load weight n + weight (next p.db) := by
  have hmem : i ∈ Finset.range n := Finset.mem_range.2 hi
  have hstep : ∀ j, weight ((p.step i).threads j) = Function.update (fun j => weight (p.threads j)) i (weight (next p.db)) j := by
    intro j
    simp only [Pool.step, ht]
    by_cases hj : j = i
    · rw [hj, Function.update_self, Function.update_self]
    · rw [Function.update_of_ne hj, Function.update_of_ne hj]
  rw [Pool.load, Pool.load, Finset.sum_congr rfl fun j _ => hstep j, Finset.sum_update_of_mem hmem,
    Finset.sum_eq_sum_sdiff_singleton_add hmem fun j => weight (p.threads j), ht]
  omega

end Load

/-! A program of statements as a thread, each statement committed by itself. -/

section Prog

open Lib.Txn

variable {W R E A : Type} (apply : D → W → D)

/-- A statement that fails leaves the database as it was. -/
def runStmt (s : D → Option (List W × R)) (d : D) : D :=
  match s d with
  | none => d
  | some (ws, _) => ws.foldl apply d

def ofProg (label : L) (ret : A → Thread D L) (throw : E → Thread D L) : Prog D W R E A → Thread D L
  | .ret a => ret a
  | .throw e => throw e
  | .stmt s k => .act label (runStmt apply s) fun d => ofProg label ret throw (k ((s d).map Prod.snd))

/-- Every statement that the program can come to, whatever is answered, satisfies `Q`. -/
def EachStmt (Q : (D → Option (List W × R)) → Prop) : Prog D W R E A → Prop
  | .ret _ => True
  | .throw _ => True
  | .stmt s k => Q s ∧ ∀ r, EachStmt Q (k r)

theorem all_ofProg {P : L → (D → D) → Prop} {label : L} {ret : A → Thread D L} {throw : E → Thread D L}
    {p : Prog D W R E A} (hp : EachStmt (fun s => P label (runStmt apply s)) p) (hret : ∀ a, (ret a).All P)
    (hthrow : ∀ e, (throw e).All P) : (ofProg apply label ret throw p).All P := by
  induction p with
  | ret a => exact hret a
  | throw e => exact hthrow e
  | stmt s k ih => exact ⟨hp.1, fun d => ih _ (hp.2 _)⟩

end Prog

end Lib.Threads
