import Mathlib.Tactic

/-! Splicing a piece into a list in front of the first occurrence of a marker. The
comparison of elements is a parameter, so that a marker can be looked for without
regard to case. A piece in which no occurrence can begin, whatever follows it, is
never cut. -/

namespace Lib.Splice

variable {α : Type} (same : α → α → Bool)

/-- The list starts with the marker. -/
def starts : List α → List α → Bool
  | [], _ => true
  | _ :: _, [] => false
  | a :: m, c :: s => same c a && starts m s

/-- Where the marker first occurs. -/
def index (m : List α) : List α → Option ℕ
  | [] => if starts same m [] then some 0 else none
  | c :: s => if starts same m (c :: s) then some 0 else (index m s).map (· + 1)

def insertAt (s tag : List α) (i : ℕ) : List α := s.take i ++ tag ++ s.drop i

/-- The list can be continued to one that starts with the marker. -/
def mayStart : List α → List α → Bool
  | [], _ => true
  | _ :: _, [] => true
  | a :: m, c :: s => same c a && mayStart m s

/-- No occurrence of the marker begins in the list, whatever follows it. -/
def isSealed (m : List α) : List α → Bool
  | [] => true
  | c :: s => !mayStart same m (c :: s) && isSealed m s

variable {same} {m s t x y : List α}

theorem mayStart_of_starts (h : starts same m (s ++ t) = true) : mayStart same m s = true := by
  induction m generalizing s with
  | nil => cases s <;> rfl
  | cons a m ih =>
    rcases s with _ | ⟨c, s⟩
    · rfl
    · simp only [List.cons_append, starts, Bool.and_eq_true] at h
      simp only [mayStart, h.1, ih h.2, Bool.and_self]

theorem starts_of_index {i : ℕ} (h : index same m s = some i) : starts same m (s.drop i) = true := by
  induction s generalizing i with
  | nil =>
    simp only [index] at h
    split_ifs at h with hm
    simpa using hm
  | cons c s ih =>
    simp only [index] at h
    split_ifs at h with hm
    · obtain rfl := Option.some.inj h
      exact hm
    · obtain ⟨j, hj, rfl⟩ := Option.map_eq_some_iff.1 h
      exact ih hj

theorem not_starts_of_isSealed (h : isSealed same m y = true) {i : ℕ} (hi : i < y.length) (t : List α) :
    starts same m (y.drop i ++ t) = false := by
  induction y generalizing i with
  | nil => simp at hi
  | cons c y ih =>
    simp only [isSealed, Bool.and_eq_true, Bool.not_eq_true'] at h
    cases i with
    | zero =>
      by_contra hs
      rw [mayStart_of_starts (Bool.not_eq_false _ ▸ hs)] at h
      exact Bool.noConfusion h.1
    | succ i => exact ih h.2 (Nat.lt_of_succ_lt_succ hi)

/-- What the first element of the marker does not occur in can stand in front. -/
theorem isSealed_append {a : α} (hx : ∀ c ∈ x, same c a = false) (hy : isSealed same (a :: m) y = true) :
    isSealed same (a :: m) (x ++ y) = true := by
  induction x with
  | nil => exact hy
  | cons c x ih =>
    have hc := hx c List.mem_cons_self
    simp only [List.cons_append, isSealed, mayStart, hc, Bool.false_and, Bool.not_false, Bool.true_and]
    exact ih fun d hd => hx d (List.mem_cons_of_mem _ hd)

theorem isSealed_cons_cons {a b d : α} (hd : same d b = false) (hs : isSealed same (a :: b :: m) (d :: s) = true) (c : α) :
    isSealed same (a :: b :: m) (c :: d :: s) = true := by
  rw [isSealed, hs, mayStart, mayStart, hd]
  simp

/-- A sealed piece stays whole when something is inserted in front of a marker. -/
theorem infix_insertAt (hy : isSealed same m y = true) {i : ℕ} (hi : starts same m (s.drop i) = true) (hs : y <:+: s)
    (tag : List α) : y <:+: insertAt s tag i := by
  obtain ⟨x, z, rfl⟩ := hs
  by_cases hlo : i ≤ x.length
  · -- in front of the piece
    refine ⟨x.take i ++ tag ++ x.drop i, z, ?_⟩
    rw [insertAt, List.append_assoc x, List.take_append_of_le_length hlo, List.drop_append_of_le_length hlo]
    simp only [List.append_assoc]
  · by_cases hhi : i < x.length + y.length
    · -- the marker would begin in the piece
      have hdrop : (x ++ y ++ z).drop i = y.drop (i - x.length) ++ z := by
        rw [List.append_assoc, List.drop_append, List.drop_eq_nil_of_le (by omega), List.nil_append,
          List.drop_append_of_le_length (by omega)]
      rw [hdrop, not_starts_of_isSealed hy (by omega)] at hi
      exact absurd hi (by simp)
    · refine ⟨x, z.take (i - (x ++ y).length) ++ tag ++ z.drop (i - (x ++ y).length), ?_⟩
      have hlen : (x ++ y).length ≤ i := by
        rw [List.length_append]
        omega
      rw [insertAt, List.take_append, List.drop_append, List.take_of_length_le hlen, List.drop_eq_nil_of_le hlen]
      simp only [List.append_assoc, List.nil_append]

theorem tag_infix_insertAt (s tag : List α) (i : ℕ) : tag <:+: insertAt s tag i := ⟨s.take i, s.drop i, rfl⟩

theorem insertAt_insertAt {i : ℕ} (hi : i ≤ s.length) (x y : List α) :
    insertAt (insertAt s x i) y (i + x.length) = insertAt s (x ++ y) i := by
  have hlen : (s.take i ++ x).length = i + x.length := by
    rw [List.length_append, List.length_take, Nat.min_eq_left hi]
  rw [insertAt, insertAt, insertAt, List.take_left' hlen, List.drop_left' hlen]
  simp only [List.append_assoc]

theorem cut_insertAt {i : ℕ} (hi : i ≤ s.length) (tag : List α) :
    (insertAt s tag i).take i ++ (insertAt s tag i).drop (i + tag.length) = s := by
  have hlen : (s.take i).length = i := by rw [List.length_take, Nat.min_eq_left hi]
  have hdrop : (insertAt s tag i).drop (i + tag.length) = s.drop i := by
    rw [insertAt, List.drop_left']
    rw [List.length_append, hlen]
  rw [hdrop, insertAt, List.append_assoc, List.take_left' hlen, List.take_append_drop]

/-! Where the marker occurs after an insertion. -/

/-- No occurrence of the marker begins before the position. -/
def Clear (same : α → α → Bool) (m s : List α) (i : ℕ) : Prop := ∀ j < i, starts same m (s.drop j) = false

theorem clear_of_index {i : ℕ} (h : index same m s = some i) : Clear same m s i := by
  induction s generalizing i with
  | nil =>
    simp only [index] at h
    split_ifs at h
    obtain rfl := Option.some.inj h
    exact fun j hj => absurd hj (Nat.not_lt_zero j)
  | cons c s ih =>
    simp only [index] at h
    split_ifs at h with hstarts
    · obtain rfl := Option.some.inj h
      exact fun j hj => absurd hj (Nat.not_lt_zero j)
    · obtain ⟨k, hk, rfl⟩ := Option.map_eq_some_iff.1 h
      intro j hj
      cases j with
      | zero => exact Bool.not_eq_true _ ▸ hstarts
      | succ j => exact ih hk j (Nat.lt_of_succ_lt_succ hj)

theorem clear_of_index_none (h : index same m s = none) (i : ℕ) : Clear same m s i := by
  intro j hj
  induction s generalizing j with
  | nil =>
    simp only [index] at h
    split_ifs at h with hstarts
    rw [List.drop_nil]
    exact Bool.not_eq_true _ ▸ hstarts
  | cons c s ih =>
    simp only [index] at h
    split_ifs at h with hstarts
    cases j with
    | zero => exact Bool.not_eq_true _ ▸ hstarts
    | succ j => exact ih (Option.map_eq_none_iff.1 h) j (Nat.lt_of_succ_lt hj)

theorem index_le {i : ℕ} (h : index same m s = some i) : i ≤ s.length := by
  induction s generalizing i with
  | nil =>
    simp only [index] at h
    split_ifs at h
    exact (Option.some.inj h).ge
  | cons c s ih =>
    simp only [index] at h
    split_ifs at h
    · obtain rfl := Option.some.inj h
      exact Nat.zero_le _
    · obtain ⟨k, hk, rfl⟩ := Option.map_eq_some_iff.1 h
      exact Nat.succ_le_succ (ih hk)

theorem index_of_clear {i : ℕ} (hclear : Clear same m s i) (hi : i ≤ s.length) :
    index same m s = (index same m (s.drop i)).map (· + i) := by
  induction i generalizing s with
  | zero => simp
  | succ i ih =>
    rcases s with _ | ⟨c, s⟩
    · cases hi
    · have hfirst : starts same m (c :: s) = false := hclear 0 (Nat.zero_lt_succ i)
      have hrest : Clear same m s i := fun j hj => hclear (j + 1) (Nat.succ_lt_succ hj)
      rw [index, if_neg (by simp [hfirst]), ih hrest (Nat.le_of_succ_le_succ hi), Option.map_map]
      rfl

theorem starts_append (h : starts same m s = true) (t : List α) : starts same m (s ++ t) = true := by
  induction m generalizing s with
  | nil => rfl
  | cons a m ih =>
    rcases s with _ | ⟨c, s⟩
    · cases h
    · simp only [starts, Bool.and_eq_true] at h
      simp only [List.cons_append, starts, h.1, ih h.2, Bool.and_self]

theorem starts_of_starts_append {c : α} (hc : ∀ b ∈ m, same c b = false) (h : starts same m (s ++ c :: t) = true) :
    starts same m s = true := by
  induction m generalizing s with
  | nil => rfl
  | cons a m ih =>
    rcases s with _ | ⟨d, s⟩
    · simp [starts, hc a List.mem_cons_self] at h
    · simp only [List.cons_append, starts, Bool.and_eq_true] at h
      have hrest := ih (fun b hb => hc b (List.mem_cons_of_mem a hb)) h.2
      simp only [starts, h.1, hrest, Bool.and_self]

section Insertion

variable {a c : α} (hc : ∀ b ∈ m, same c b = false) {i : ℕ} (hi : i ≤ s.length)
include hc hi

/-- A sealed tag brings no occurrence, neither in itself nor across its beginning. -/
theorem clear_insertAt (htag : isSealed same (a :: m) (c :: t) = true) (hclear : Clear same (a :: m) s i) :
    Clear same (a :: m) (insertAt s (c :: t) i) (i + (c :: t).length) := by
  intro j hj
  have hlen : (s.take i).length = i := by rw [List.length_take, Nat.min_eq_left hi]
  rw [insertAt, List.append_assoc]
  by_cases hlt : j < i
  · have hinside : j ≤ (s.take i).length := hlt.le.trans hlen.ge
    rw [List.drop_append_of_le_length hinside]
    rcases hx : (s.take i).drop j with _ | ⟨d, x⟩
    · have hshort := List.drop_eq_nil_iff.1 hx
      omega
    · by_contra hstarts
      simp only [Bool.not_eq_false, List.cons_append, starts, Bool.and_eq_true] at hstarts
      have hrest : starts same m x = true := starts_of_starts_append hc hstarts.2
      have hwhole : starts same (a :: m) (d :: x) = true := by simp only [starts, hstarts.1, hrest, Bool.and_self]
      have hback : (d :: x) ++ s.drop i = s.drop j := by
        rw [← hx, ← List.drop_append_of_le_length hinside, List.take_append_drop]
      have hold := starts_append hwhole (s.drop i)
      rw [hback, hclear j hlt] at hold
      cases hold
  · have hdrop : (s.take i ++ ((c :: t) ++ s.drop i)).drop j = (c :: t).drop (j - i) ++ s.drop i := by
      rw [List.drop_append, List.drop_eq_nil_of_le (by omega), List.nil_append, hlen,
        List.drop_append_of_le_length (by omega)]
    rw [hdrop]
    exact not_starts_of_isSealed htag (by omega) _

theorem index_insertAt (htag : isSealed same (a :: m) (c :: t) = true) (hclear : Clear same (a :: m) s i) :
    index same (a :: m) (insertAt s (c :: t) i) = (index same (a :: m) s).map (· + (c :: t).length) := by
  have hlen : (s.take i ++ c :: t).length = i + (c :: t).length := by
    rw [List.length_append, List.length_take, Nat.min_eq_left hi]
  have hle : i + (c :: t).length ≤ (insertAt s (c :: t) i).length := by
    rw [insertAt, List.length_append, hlen]
    exact Nat.le_add_right _ _
  rw [index_of_clear (clear_insertAt hc hi htag hclear) hle, index_of_clear hclear hi, Option.map_map, insertAt,
    List.drop_left' hlen]
  congr 1
  funext n
  exact (Nat.add_assoc n i _).symm

end Insertion

/-- The marker as a piece of the list, up to what the comparison does not see. -/
theorem starts_iff_map {β : Type} {f : α → β} (hsame : ∀ c a, same c a = true ↔ f c = f a) :
    starts same m s = true ↔ m.map f <+: s.map f := by
  induction m generalizing s with
  | nil => simp [starts]
  | cons a m ih =>
    rcases s with _ | ⟨c, s⟩
    · simp [starts]
    · rw [starts, Bool.and_eq_true, hsame, ih, List.map_cons, List.map_cons, List.cons_prefix_cons]
      exact and_congr_left' eq_comm

end Lib.Splice
