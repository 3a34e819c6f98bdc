import CaptivoAccess.Lib.JsonText
import Mathlib.Data.List.Sort

/-! JavaScript values that can stand in a JSON column, and the trip through it:
`JSON.stringify` on write, a store that may reorder the keys of an object, and
`JSON.parse` on read. -/

namespace Lib.JsValue

open Lib.JsonText

/-- A value in memory. A function or a symbol behaves as `undefined` does; a date
without a time is an invalid one. -/
inductive JsVal where
  | undefined
  | null
  | bool (b : Bool)
  | num (n : NumText)
  | nonFinite
  | str (s : Units)
  | date (t : Option ℤ)
  | arr (xs : List JsVal)
  | obj (fs : List (Units × JsVal))

def JsVal.isUndefined : JsVal → Bool
  | .undefined => true
  | _ => false

mutual

/-- No object has one key twice. -/
def distinct : JsVal → Bool
  | .arr xs => distinctAll xs
  | .obj fs => decide (fs.map Prod.fst).Nodup && distinctFields fs
  | _ => true

def distinctAll : List JsVal → Bool
  | [] => true
  | x :: xs => distinct x && distinctAll xs

def distinctFields : List (Units × JsVal) → Bool
  | [] => true
  | (_, v) :: fs => distinct v && distinctFields fs

end

/-- A column that keeps an object's fields in an order of its own. -/
structure Jsonb where
  order : List (Units × JsVal) → List (Units × JsVal)
  perm : ∀ fs, (order fs).Perm fs

/-- The column that keeps the order of the writer. -/
def Jsonb.asWritten : Jsonb := ⟨id, fun _ => List.Perm.refl _⟩

section RoundTrip

variable (toISOString : ℤ → Units) (J : Jsonb)

mutual

/-- What is read back: a field that is `undefined` is not written, a date is its
text, and what JSON cannot say is `null`. -/
def roundTrip : JsVal → JsVal
  | .undefined | .nonFinite => .null
  | .date none => .null
  | .date (some t) => .str (toISOString t)
  | .arr xs => .arr (roundTripAll xs)
  | .obj fs => .obj (J.order (roundTripFields fs))
  | v => v

def roundTripAll : List JsVal → List JsVal
  | [] => []
  | x :: xs => roundTrip x :: roundTripAll xs

def roundTripFields : List (Units × JsVal) → List (Units × JsVal)
  | [] => []
  | (k, v) :: fs => if v.isUndefined then roundTripFields fs else (k, roundTrip v) :: roundTripFields fs

end

theorem roundTripFields_keys (fs : List (Units × JsVal)) :
    ((roundTripFields toISOString J fs).map Prod.fst).Sublist (fs.map Prod.fst) := by
  induction fs with
  | nil => exact List.Sublist.refl _
  | cons p fs ih =>
    obtain ⟨k, v⟩ := p
    simp only [roundTripFields]
    split_ifs with hv
    · exact ih.cons k
    · exact ih.cons_cons k

end RoundTrip

/-! Fields sorted by key. -/

section Sorted

variable {α β : Type}

/-- Strings compare unit by unit. -/
def sortByKey (fs : List (Units × α)) : List (Units × α) := fs.insertionSort fun p q => p.1 ≤ q.1

instance : Std.Total fun p q : Units × α => p.1 ≤ q.1 := ⟨fun p q => List.le_total p.1 q.1⟩

instance : IsTrans (Units × α) fun p q => p.1 ≤ q.1 := ⟨fun _ _ _ h1 h2 => List.le_trans h1 h2⟩

theorem sortByKey_perm (fs : List (Units × α)) : (sortByKey fs).Perm fs := List.perm_insertionSort _ fs

theorem sortByKey_map (f : α → β) (fs : List (Units × α)) :
    sortByKey (fs.map fun p => (p.1, f p.2)) = (sortByKey fs).map fun p => (p.1, f p.2) := by
  unfold sortByKey
  rw [List.map_insertionSort (fun p q : Units × α => p.1 ≤ q.1) (fun p q : Units × β => p.1 ≤ q.1)]
  intro p _ q _
  rfl

theorem eq_of_key_eq {fs : List (Units × α)} (hn : (fs.map Prod.fst).Nodup) {p q : Units × α} (hp : p ∈ fs)
    (hq : q ∈ fs) (h : p.1 = q.1) : p = q :=
  List.inj_on_of_nodup_map hn hp hq h

theorem sortByKey_eq_of_perm {fs gs : List (Units × α)} (hn : (gs.map Prod.fst).Nodup) (h : fs.Perm gs) :
    sortByKey fs = sortByKey gs := by
  have hp : (sortByKey fs).Perm (sortByKey gs) := ((sortByKey_perm fs).trans h).trans (sortByKey_perm gs).symm
  refine hp.eq_of_pairwise ?_ (List.pairwise_insertionSort _ fs) (List.pairwise_insertionSort _ gs)
  intro p q hpf hqg h1 h2
  have hpg : p ∈ gs := h.subset ((sortByKey_perm fs).subset hpf)
  exact eq_of_key_eq hn hpg ((sortByKey_perm gs).subset hqg) (List.le_antisymm h1 h2)

/-- Fields under the same keys in the same order are equal when they are a permutation of each other. -/
theorem eq_of_perm_of_keys {fs gs : List (Units × α)} (hn : (gs.map Prod.fst).Nodup) (h : fs.Perm gs)
    (hk : fs.map Prod.fst = gs.map Prod.fst) : fs = gs := by
  induction gs generalizing fs with
  | nil => exact h.eq_nil
  | cons q gs ih =>
    cases fs with
    | nil => simp at hk
    | cons p fs =>
      simp only [List.map_cons, List.cons.injEq] at hk
      have hpq : p = q := eq_of_key_eq hn (h.subset List.mem_cons_self) List.mem_cons_self hk.1
      subst hpq
      rw [ih (List.nodup_cons.1 hn).2 ((List.perm_cons p).1 h) hk.2]

end Sorted

end Lib.JsValue
