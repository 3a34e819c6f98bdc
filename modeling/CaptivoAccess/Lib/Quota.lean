import Mathlib.Algebra.Order.Group.Int
import Mathlib.Data.List.Basic

/-! Calls that are let through up to a number of times in each window. A window opens with
the first call after the one before it was over. -/

namespace Lib.Quota

structure Window where
  count : ℕ
  reset : ℤ
  deriving DecidableEq

def Window.over (now : ℤ) (w : Window) : Bool := w.reset < now

/-- A call: the window it leaves, and whether it is let through. -/
def admission (limit : ℕ) (length now : ℤ) : Option Window → Window × Bool
  | none => (⟨1, now + length⟩, true)
  | some w =>
    if w.over now then (⟨1, now + length⟩, true)
    else if limit ≤ w.count then (w, false)
    else (⟨w.count + 1, w.reset⟩, true)

/-- What is known of a window and of the times at which calls were let through, until now. -/
structure Held (limit : ℕ) (length now : ℤ) (times : List ℤ) (w : Option Window) : Prop where
  past : ∀ t ∈ times, t < now ∨ ∃ v, w = some v ∧ t ≤ v.reset
  counted : ∀ v, w = some v → (times.filter (v.reset - length ≤ ·)).length ≤ v.count ∧ v.count ≤ limit

section Steps

variable {limit : ℕ} {length now : ℤ} {times : List ℤ} {w : Option Window}

theorem held_nil : Held limit length now [] none := ⟨by simp, by simp⟩

theorem Held.wait (h : Held limit length now times w) {later : ℤ} (hle : now ≤ later) : Held limit length later times w :=
  ⟨fun t ht => (h.past t ht).imp_left fun hlt => lt_of_lt_of_le hlt hle, h.counted⟩

theorem Held.before (h : Held limit length now times w) (hover : ∀ v, w = some v → v.reset < now) : ∀ t ∈ times, t < now := by
  intro t ht
  rcases h.past t ht with hlt | ⟨v, hv, hle⟩
  · exact hlt
  · exact lt_of_le_of_lt hle (hover v hv)

theorem Held.forget (h : Held limit length now times w) : Held limit length now times (w.filter fun v => !v.over now) := by
  refine ⟨fun t ht => ?_, fun v hv => h.counted v (Option.filter_eq_some_iff.1 hv).1⟩
  rcases h.past t ht with hlt | ⟨v, rfl, hle⟩
  · exact Or.inl hlt
  · by_cases hover : v.reset < now
    · exact Or.inl (lt_of_le_of_lt hle hover)
    · exact Or.inr ⟨v, by simp [Option.filter, Window.over, hover], hle⟩

theorem held_opened (hlimit : 0 < limit) (hlength : 0 ≤ length) (hbefore : ∀ t ∈ times, t < now) :
    Held limit length now (times ++ [now]) (some ⟨1, now + length⟩) := by
  have hnone : times.filter (now ≤ ·) = [] := by
    rw [List.filter_eq_nil_iff]
    intro t ht
    simpa using hbefore t ht
  refine ⟨fun t ht => ?_, fun v hv => ?_⟩
  · rcases List.mem_append.1 ht with ht | ht
    · exact Or.inl (hbefore t ht)
    · rw [List.mem_singleton.1 ht]
      exact Or.inr ⟨_, rfl, by simpa using hlength⟩
  · cases hv
    simp only [add_sub_cancel_right, List.filter_append, hnone, List.nil_append]
    exact ⟨List.length_filter_le _ [now], hlimit⟩

theorem Held.counted_in {v : Window} (h : Held limit length now times (some v)) (hin : now ≤ v.reset) (hfree : v.count < limit) :
    Held limit length now (times ++ [now]) (some ⟨v.count + 1, v.reset⟩) := by
  obtain ⟨hcount, -⟩ := h.counted v rfl
  refine ⟨fun t ht => ?_, fun u hu => ?_⟩
  · rcases List.mem_append.1 ht with ht | ht
    · refine (h.past t ht).imp_right ?_
      rintro ⟨u, ⟨⟩, hle⟩
      exact ⟨_, rfl, hle⟩
    · rw [List.mem_singleton.1 ht]
      exact Or.inr ⟨_, rfl, hin⟩
  · cases hu
    have hone := List.length_filter_le (v.reset - length ≤ ·) [now]
    rw [List.filter_append, List.length_append]
    exact ⟨Nat.add_le_add hcount hone, hfree⟩

theorem Held.admission (hlimit : 0 < limit) (hlength : 0 ≤ length) (h : Held limit length now times w) :
    Held limit length now (if (admission limit length now w).2 then times ++ [now] else times)
      (some (admission limit length now w).1) := by
  cases w with
  | none => exact held_opened hlimit hlength (h.before (by simp))
  | some v =>
    rw [Quota.admission]
    by_cases hover : v.over now = true
    · rw [if_pos hover]
      refine held_opened hlimit hlength (h.before ?_)
      rintro u ⟨⟩
      exact of_decide_eq_true hover
    · rw [if_neg hover]
      by_cases hfull : limit ≤ v.count
      · rw [if_pos hfull]
        exact h
      · rw [if_neg hfull]
        exact h.counted_in (not_lt.1 fun hlt => hover (decide_eq_true hlt)) (not_le.1 hfull)

end Steps

end Lib.Quota
