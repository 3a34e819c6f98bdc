import Mathlib.Tactic

/-! Readers of a finite input. A reader takes one item off the front of the
input or refuses it; `Reader.all` repeats it until it refuses. When an item that
was read does not change once more input arrives (`Reader.Stable`), reading a
concatenation is reading its parts, provided each part but the last is used up. -/

namespace Lib.Parse

variable {β α : Type}

/-- One item off the front of the input, with what is left. -/
structure Reader (β α : Type) where
  read : List β → Option (α × List β)
  shortens : ∀ {xs : List β} {a : α} {r : List β}, read xs = some (a, r) → r.length < xs.length

namespace Reader

variable (p : Reader β α)

def many : ℕ → List β → List α × List β
  | 0, xs => ([], xs)
  | n + 1, xs =>
    match p.read xs with
    | none => ([], xs)
    | some (a, r) => (a :: (many n r).1, (many n r).2)

/-- The items read until the first refusal, with the input refused. Every item
uses up input, so the length of the input bounds their number. -/
def all (xs : List β) : List α × List β := p.many xs.length xs

/-- The reader uses the whole input up. -/
def Whole (xs : List β) : Prop := (p.all xs).2 = []

/-- An item that was read stays the same when more input follows. -/
def Stable : Prop :=
  ∀ {xs : List β} {a : α} {r : List β} (ys : List β), p.read xs = some (a, r) → p.read (xs ++ ys) = some (a, r ++ ys)

instance [DecidableEq β] (xs : List β) : Decidable (p.Whole xs) :=
  inferInstanceAs (Decidable ((p.all xs).2 = []))

theorem read_nil : p.read [] = none := by
  cases h : p.read [] with
  | none => rfl
  | some ar => exact absurd (p.shortens (a := ar.1) (r := ar.2) h) (Nat.not_lt_zero _)

theorem many_fuel (n m : ℕ) (xs : List β) (hn : xs.length ≤ n) (hm : xs.length ≤ m) :
    p.many n xs = p.many m xs := by
  induction n generalizing m xs with
  | zero =>
    obtain rfl : xs = [] := List.eq_nil_of_length_eq_zero (Nat.le_zero.mp hn)
    cases m with
    | zero => rfl
    | succ m => simp only [many, p.read_nil]
  | succ n ih =>
    cases m with
    | zero =>
      obtain rfl : xs = [] := List.eq_nil_of_length_eq_zero (Nat.le_zero.mp hm)
      simp only [many, p.read_nil]
    | succ m =>
      cases h : p.read xs with
      | none => simp only [many, h]
      | some ar =>
        have hlt := p.shortens (a := ar.1) (r := ar.2) h
        have hr := ih m ar.2 (by omega) (by omega)
        simp only [many, h, hr]

theorem all_of_none {xs : List β} (h : p.read xs = none) : p.all xs = ([], xs) := by
  unfold all
  cases xs.length with
  | zero => rfl
  | succ n => simp only [many, h]

@[simp] theorem all_nil : p.all [] = ([], []) := p.all_of_none p.read_nil

theorem all_of_some {xs : List β} {a : α} {r : List β} (h : p.read xs = some (a, r)) :
    p.all xs = (a :: (p.all r).1, (p.all r).2) := by
  have hlt := p.shortens h
  unfold all
  obtain ⟨n, hn⟩ : ∃ n, xs.length = n + 1 := ⟨xs.length - 1, by omega⟩
  rw [hn]
  simp only [many, h]
  rw [p.many_fuel n r.length r (by omega) le_rfl]

/-- Induction along the items of an input: one case for the refusal, one for an item. -/
theorem all_induction {motive : List β → Prop} (none : ∀ xs, p.read xs = none → motive xs)
    (some : ∀ xs a r, p.read xs = some (a, r) → motive r → motive xs) (xs : List β) : motive xs := by
  induction hn : xs.length using Nat.strong_induction_on generalizing xs with
  | _ n ih =>
    cases h : p.read xs with
    | none => exact none xs h
    | some ar =>
      have hlt := p.shortens (a := ar.1) (r := ar.2) h
      exact some xs ar.1 ar.2 h (ih ar.2.length (by omega) ar.2 rfl)

theorem all_append (hs : p.Stable) {xs : List β} (hw : p.Whole xs) (ys : List β) :
    p.all (xs ++ ys) = ((p.all xs).1 ++ (p.all ys).1, (p.all ys).2) := by
  induction xs using p.all_induction with
  | none xs h =>
    have hx : xs = [] := by simpa only [Whole, p.all_of_none h] using hw
    subst hx
    simp
  | some xs a r h ih =>
    have hr : p.Whole r := by simpa only [Whole, p.all_of_some h] using hw
    rw [p.all_of_some (hs ys h), p.all_of_some h, ih hr]
    rfl

theorem whole_append (hs : p.Stable) {xs ys : List β} (hx : p.Whole xs) (hy : p.Whole ys) :
    p.Whole (xs ++ ys) := by
  rw [Whole, p.all_append hs hx]
  exact hy

/-- The items of a list of pieces, each read on its own. -/
def pieces (cs : List (List β)) : List α := cs.flatMap fun c => (p.all c).1

theorem whole_flatten (hs : p.Stable) (cs : List (List β)) (hw : ∀ c ∈ cs, p.Whole c) :
    p.Whole cs.flatten ∧ (p.all cs.flatten).1 = p.pieces cs := by
  induction cs with
  | nil => exact ⟨by simp [Whole], by simp [pieces]⟩
  | cons c cs ih =>
    obtain ⟨h1, h2⟩ := ih fun c' hc' => hw c' (List.mem_cons_of_mem _ hc')
    have hc := hw c List.mem_cons_self
    rw [List.flatten_cons]
    refine ⟨p.whole_append hs hc h1, ?_⟩
    rw [p.all_append hs hc, h2]
    rfl

end Reader

end Lib.Parse
