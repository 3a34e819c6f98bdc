import CaptivoAccess.Lib.Threads

/-! Threads that check and then act. What a thread has found free when it checked is a
claim that it holds until it acts on it. A claim outlasts what the other threads do, as
long as they act on claims that do not conflict with it; so where no thread takes a claim
that conflicts with one that is held, every act is on what is free. -/

namespace Lib.Threads

variable {D L K : Type}

/-- The claim that a thread holds, read off the statement that it makes next. -/
def Thread.claim (claims : L → Option K) : Thread D L → Option K
  | .done => none
  | .act l _ _ => claims l

/-- How claims are held: which statement holds which, what a claim says of the database, and which of them conflict. -/
structure Claims (D L K : Type) where
  held : L → Option K
  Free : K → D → Prop
  Conflict : K → K → Prop
  symm : ∀ k k', Conflict k k' → Conflict k' k

namespace Claims

variable (c : Claims D L K) (Inv : D → Prop)

/-- The statement keeps the invariant where its claim is free, the next one then holds a claim that is free, and every free claim
that does not conflict with it stays free. -/
structure Sound (l : L) (f : D → D) (next : D → Thread D L) (d : D) : Prop where
  keeps : Inv d → (∀ k ∈ c.held l, c.Free k d) → Inv (f d)
  takes : Inv d → (∀ k ∈ c.held l, c.Free k d) → ∀ k ∈ (next d).claim c.held, c.Free k (f d)
  leaves : Inv d → ∀ k', c.Free k' d → (∀ k ∈ c.held l, ¬ c.Conflict k' k) → c.Free k' (f d)

/-- Every statement that the thread can come to is sound. -/
def Checks : Thread D L → Prop
  | .done => True
  | .act l f next => (∀ d, c.Sound Inv l f next d) ∧ ∀ d, Checks (next d)

/-- The step of thread `i` does not take a claim that conflicts with one that another thread holds. -/
def Apart (p : Pool D L) (i : ℕ) : Prop :=
  ∀ k ∈ ((p.step i).threads i).claim c.held, ∀ j ≠ i, ∀ k' ∈ (p.threads j).claim c.held, ¬ c.Conflict k k'

/-- The invariant holds, every claim that is held is free, and no two of them conflict. -/
structure Consistent (p : Pool D L) : Prop where
  inv : Inv p.db
  free : ∀ i, ∀ k ∈ (p.threads i).claim c.held, c.Free k p.db
  apart : ∀ i j, i ≠ j → ∀ k ∈ (p.threads i).claim c.held, ∀ k' ∈ (p.threads j).claim c.held, ¬ c.Conflict k k'
  checks : ∀ i, c.Checks Inv (p.threads i)

variable {c Inv}

variable {p : Pool D L}

theorem Consistent.step (h : c.Consistent Inv p) {i : ℕ} (hi : c.Apart p i) : c.Consistent Inv (p.step i) := by
  cases ht : p.threads i with
  | done =>
    rw [show p.step i = p by rw [Pool.step, ht]]
    exact h
  | act l f next =>
    have hchecks := h.checks i
    have hfree := h.free i
    have hapart := h.apart
    unfold Apart at hi
    rw [ht] at hchecks hfree
    obtain ⟨hsound, hnext⟩ := hchecks
    have hself : (p.step i).threads i = next p.db := by simp only [Pool.step, ht, Function.update_self]
    have hother : ∀ j, j ≠ i → (p.step i).threads j = p.threads j := by
      intro j hj
      simp only [Pool.step, ht, Function.update_of_ne hj]
    have hdb : (p.step i).db = f p.db := by simp only [Pool.step, ht]
    rw [hself] at hi
    refine ⟨?_, ?_, ?_, ?_⟩
    · rw [hdb]
      exact (hsound p.db).keeps h.inv hfree
    · intro j k hk
      rw [hdb]
      by_cases hj : j = i
      · rw [hj, hself] at hk
        exact (hsound p.db).takes h.inv hfree k hk
      · rw [hother j hj] at hk
        refine (hsound p.db).leaves h.inv k (h.free j k hk) fun k' hk' => ?_
        exact hapart j i hj k hk k' (by rw [ht]; exact hk')
    · intro j j' hne k hk k' hk'
      by_cases hj : j = i
      · have hj' : j' ≠ i := fun he => hne (hj.trans he.symm)
        rw [hj, hself] at hk
        rw [hother j' hj'] at hk'
        exact hi k hk j' hj' k' hk'
      · rw [hother j hj] at hk
        by_cases hj' : j' = i
        · rw [hj', hself] at hk'
          exact fun hc => hi k' hk' j hj k hk (c.symm k k' hc)
        · rw [hother j' hj'] at hk'
          exact hapart j j' hne k hk k' hk'
    · intro j
      by_cases hj : j = i
      · rw [hj, hself]
        exact hnext p.db
      · rw [hother j hj]
        exact h.checks j

theorem apart_of_alone {i : ℕ} (h : ∀ j ≠ i, (p.threads j).claim c.held = none) : c.Apart p i := by
  intro k _ j hj k' hk'
  rw [h j hj] at hk'
  cases hk'

/-- Where no claim is taken that conflicts with one that is held, every interleaving keeps the invariant. -/
theorem run_consistent (h : c.Consistent Inv p) {schedule : List ℕ} (hrun : Lib.Run.Meets Pool.step c.Apart p schedule) :
    c.Consistent Inv (p.run schedule) :=
  Lib.Run.invariant (fun _ _ hq hi => hq.step hi) h hrun

theorem consistent_start (hinv : Inv p.db) (hchecks : ∀ i, c.Checks Inv (p.threads i))
    (hstart : ∀ i, (p.threads i).claim c.held = none) : c.Consistent Inv p where
  inv := hinv
  free := by
    intro i k hk
    rw [hstart i] at hk
    cases hk
  apart := by
    intro i j _ k hk
    rw [hstart i] at hk
    cases hk
  checks := hchecks

end Claims

end Lib.Threads
