import Mathlib.Tactic

/-! A log with holes: everything that was put into a queue, in order, with what became of
it. Entries are settled from the front, so what is still waiting is the end of the log. -/

namespace Lib.Ledger

variable {α : Type}

inductive Fate where
  | taken
  | waiting
  | dropped
  deriving DecidableEq, Repr

abbrev Entries (α : Type) := List (α × Fate)

/-- Gives the oldest waiting entry its fate. -/
def settle (fate : Fate) : Entries α → Entries α
  | [] => []
  | x :: l => if x.2 = .waiting then (x.1, fate) :: l else x :: settle fate l

/-- The entries with a fate that satisfies `p`. -/
def those (p : Fate → Bool) (l : Entries α) : List α := (l.filter fun x => p x.2).map (·.1)

def waiting (xs : List α) : Entries α := xs.map (·, .waiting)

theorem those_append (p : Fate → Bool) (l l' : Entries α) : those p (l ++ l') = those p l ++ those p l' := by
  simp [those]

theorem those_map (p : Fate → Bool) (fate : Fate) (xs : List α) :
    those p (xs.map (·, fate)) = if p fate then xs else [] := by
  induction xs with
  | nil => simp [those]
  | cons x xs ih =>
    simp only [those, List.map_cons, List.filter_cons] at ih ⊢
    split_ifs at ih ⊢ with hp
    · rw [List.map_cons, ih]
    · exact ih

theorem fate_of_getElem? {fate fate' : Fate} {xs : List α} {a : α} {i : ℕ}
    (h : (xs.map (·, fate))[i]? = some (a, fate')) : fate' = fate := by
  obtain ⟨b, -, hb⟩ := List.mem_map.1 (List.mem_of_getElem? h)
  exact (congrArg Prod.snd hb).symm

theorem length_those (fate : Fate) (l : Entries α) :
    (those (· ≠ fate) l).length + (those (· = fate) l).length = l.length := by
  induction l with
  | nil => rfl
  | cons x l ih =>
    simp only [those, List.length_map] at ih ⊢
    by_cases hx : x.2 = fate
    · rw [List.filter_cons_of_neg (by simpa using hx), List.filter_cons_of_pos (by simpa using hx), List.length_cons,
        List.length_cons]
      omega
    · rw [List.filter_cons_of_pos (by simpa using hx), List.filter_cons_of_neg (by simpa using hx), List.length_cons,
        List.length_cons]
      omega

variable {past : Entries α}

theorem settle_append (hpast : ∀ x ∈ past, x.2 ≠ .waiting) (fate : Fate) (l : Entries α) :
    settle fate (past ++ l) = past ++ settle fate l := by
  induction past with
  | nil => rfl
  | cons x past ih =>
    obtain ⟨hx, hpast⟩ := List.forall_mem_cons.1 hpast
    rw [List.cons_append, settle, if_neg hx, ih hpast, List.cons_append]

theorem settled_append {fate : Fate} (hfate : fate ≠ .waiting) (hpast : ∀ x ∈ past, x.2 ≠ .waiting)
    (xs : List α) : ∀ x ∈ past ++ xs.map (·, fate), x.2 ≠ .waiting := by
  intro x hx
  obtain hx | hx := List.mem_append.1 hx
  · exact hpast x hx
  · obtain ⟨a, -, rfl⟩ := List.mem_map.1 hx
    exact hfate

theorem settle_iterate {fate : Fate} (hfate : fate ≠ .waiting) (hpast : ∀ x ∈ past, x.2 ≠ .waiting)
    (n : ℕ) (xs : List α) :
    (settle fate)^[n] (past ++ waiting xs) = (past ++ (xs.take n).map (·, fate)) ++ waiting (xs.drop n) := by
  induction n generalizing past xs with
  | zero => simp
  | succ n ih =>
    rw [Function.iterate_succ_apply, settle_append hpast]
    cases xs with
    | nil =>
      have hnone := ih hpast []
      simpa [waiting, settle] using hnone
    | cons x xs =>
      have hrest := ih (settled_append hfate hpast [x]) xs
      simpa [waiting, settle] using hrest

theorem map_settle (fate : Fate) (l : Entries α) : (settle fate l).map (·.1) = l.map (·.1) := by
  induction l with
  | nil => rfl
  | cons x l ih =>
    rw [settle]
    split_ifs
    · rfl
    · rw [List.map_cons, List.map_cons, ih]

theorem map_settle_iterate (fate : Fate) (n : ℕ) (l : Entries α) : ((settle fate)^[n] l).map (·.1) = l.map (·.1) := by
  induction n generalizing l with
  | zero => rfl
  | succ n ih => rw [Function.iterate_succ_apply, ih, map_settle]

end Lib.Ledger
