import Mathlib.Tactic

/-! Items collected under their keys, as a `Map` of arrays does it: a key stands where
its first item came, and its items stand in the order they came. -/

namespace Lib.Group

variable {K V : Type} [DecidableEq K]

abbrev Groups (K V : Type) := List (K × List V)

def push (k : K) (v : V) : Groups K V → Groups K V
  | [] => [(k, [v])]
  | (k', vs) :: gs => if k' = k then (k', vs ++ [v]) :: gs else (k', vs) :: push k v gs

/-- The items under a key; none when it has no group. -/
def groupOf (k : K) : Groups K V → List V
  | [] => []
  | (k', vs) :: gs => if k' = k then vs else groupOf k gs

def keys (gs : Groups K V) : List K := gs.map Prod.fst

def total (gs : Groups K V) : ℕ := (gs.map fun g => g.2.length).sum

theorem groupOf_push (k k' : K) (v : V) (gs : Groups K V) :
    groupOf k' (push k v gs) = groupOf k' gs ++ if k = k' then [v] else [] := by
  induction gs with
  | nil => by_cases h : k = k' <;> simp [push, groupOf, h]
  | cons g gs ih =>
    obtain ⟨k0, vs⟩ := g
    by_cases h0 : k0 = k
    · subst h0
      by_cases h : k0 = k' <;> simp [push, groupOf, h]
    · by_cases h : k0 = k'
      · subst h
        simp [push, groupOf, h0, Ne.symm h0]
      · simp [push, groupOf, h0, h, ih]

theorem total_push (k : K) (v : V) (gs : Groups K V) : total (push k v gs) = total gs + 1 := by
  induction gs with
  | nil => rfl
  | cons g gs ih =>
    obtain ⟨k0, vs⟩ := g
    by_cases h0 : k0 = k
    · simp only [push, h0, if_true, total, List.map_cons, List.sum_cons, List.length_append, List.length_singleton]
      omega
    · simp only [total] at ih
      simp only [push, h0, if_false, total, List.map_cons, List.sum_cons, ih]
      omega

variable {gs : Groups K V}

theorem mem_keys_push {k k' : K} {v : V} (h : k' ∈ keys (push k v gs)) :
    k' = k ∨ k' ∈ keys gs := by
  induction gs with
  | nil => exact Or.inl (by simpa [push, keys] using h)
  | cons g gs ih =>
    obtain ⟨k0, vs⟩ := g
    by_cases h0 : k0 = k
    · exact Or.inr (by simpa [push, keys, h0] using h)
    · simp only [push, h0, if_false, keys, List.map_cons, List.mem_cons] at h ⊢
      rcases h with h | h
      · exact Or.inr (Or.inl h)
      · rcases ih h with h | h
        · exact Or.inl h
        · exact Or.inr (Or.inr h)

theorem mem_keys_push_iff {k k' : K} {v : V} : k' ∈ keys (push k v gs) ↔ k' = k ∨ k' ∈ keys gs := by
  refine ⟨mem_keys_push, ?_⟩
  induction gs with
  | nil => simp [push, keys]
  | cons g gs ih =>
    obtain ⟨k0, vs⟩ := g
    by_cases h0 : k0 = k
    · rintro (rfl | h)
      · simp [push, keys, h0]
      · simpa [push, keys, h0] using h
    · simp only [push, h0, if_false, keys, List.map_cons, List.mem_cons] at ih ⊢
      rintro (h | h | h)
      · exact Or.inr (ih (Or.inl h))
      · exact Or.inl h
      · exact Or.inr (ih (Or.inr h))

theorem nodup_push {k : K} {v : V} (h : (keys gs).Nodup) : (keys (push k v gs)).Nodup := by
  induction gs with
  | nil => simp [push, keys]
  | cons g gs ih =>
    obtain ⟨k0, vs⟩ := g
    simp only [keys, List.map_cons, List.nodup_cons] at h
    by_cases h0 : k0 = k
    · simp only [push, h0, if_true, keys, List.map_cons, List.nodup_cons]
      rw [← h0]
      exact h
    · simp only [push, h0, if_false, keys, List.map_cons, List.nodup_cons]
      refine ⟨fun hm => ?_, ih h.2⟩
      rcases mem_keys_push hm with hk | hk
      · exact h0 hk
      · exact h.1 hk

theorem groupOf_eq_nil {k : K} (h : k ∉ keys gs) : groupOf k gs = [] := by
  induction gs with
  | nil => rfl
  | cons g gs ih =>
    obtain ⟨k0, vs⟩ := g
    simp only [keys, List.map_cons, List.mem_cons, not_or] at h
    simp only [groupOf, Ne.symm h.1, if_false]
    exact ih h.2

theorem groupOf_of_mem {k : K} {vs : List V} (h : (keys gs).Nodup) (hm : (k, vs) ∈ gs) : groupOf k gs = vs := by
  induction gs with
  | nil => cases hm
  | cons g gs ih =>
    obtain ⟨k0, vs0⟩ := g
    simp only [keys, List.map_cons, List.nodup_cons] at h
    rcases List.mem_cons.1 hm with heq | hm
    · cases heq
      simp [groupOf]
    · have hne : k0 ≠ k := by
        rintro rfl
        exact h.1 (List.mem_map_of_mem hm)
      rw [groupOf, if_neg hne]
      exact ih h.2 hm

end Lib.Group
