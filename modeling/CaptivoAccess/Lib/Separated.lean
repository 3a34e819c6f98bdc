import Mathlib.Tactic

/-! Texts joined with a separator. Splitting the joined text gives the pieces of all the
texts, so a list of texts without the separator in them can be told from every other list
of its length, and one with the separator in it cannot. -/

namespace Lib.Separated

variable {α : Type} {sep : α} {ts us : List (List α)}

theorem join_append {xs ys : List (List α)} (hx : xs ≠ []) (hy : ys ≠ []) :
    [sep].intercalate (xs ++ ys) = [sep].intercalate xs ++ sep :: [sep].intercalate ys := by
  induction xs with
  | nil => exact absurd rfl hx
  | cons x xs ih =>
    cases xs with
    | nil => simp [List.intercalate_cons_of_ne_nil hy]
    | cons x' xs =>
      have hne : x' :: xs ≠ [] := List.cons_ne_nil _ _
      rw [List.cons_append, List.intercalate_cons_of_ne_nil (by simp), ih hne, List.intercalate_cons_of_ne_nil hne]
      simp

theorem join_congr (xs : List (List α)) {ts us : List (List α)} (ys : List (List α)) (hts : ts ≠ []) (hus : us ≠ [])
    (h : [sep].intercalate us = [sep].intercalate ts) :
    [sep].intercalate (xs ++ (us ++ ys)) = [sep].intercalate (xs ++ (ts ++ ys)) := by
  have hright : [sep].intercalate (us ++ ys) = [sep].intercalate (ts ++ ys) := by
    by_cases hy : ys = []
    · rw [hy, List.append_nil, List.append_nil, h]
    · rw [join_append hus hy, join_append hts hy, h]
  by_cases hx : xs = []
  · rw [hx, List.nil_append, List.nil_append, hright]
  · rw [join_append hx (by simp [hus]), join_append hx (by simp [hts]), hright]

theorem exists_shift (hlen : 2 ≤ ts.length) (hsep : ∃ t ∈ ts, sep ∈ t) :
    ∃ us, us ≠ ts ∧ us.length = ts.length ∧ [sep].intercalate us = [sep].intercalate ts := by
  obtain ⟨t, ht, hmem⟩ := hsep
  obtain ⟨before, after, rfl⟩ := List.append_of_mem ht
  obtain ⟨a, b, rfl⟩ := List.append_of_mem hmem
  cases after with
  | cons y after =>
    refine ⟨before ++ a :: (b ++ sep :: y) :: after, ?_, by simp, ?_⟩
    · simp
    · have hpair : [sep].intercalate [a, b ++ sep :: y] = [sep].intercalate [a ++ sep :: b, y] := by
        simp [List.intercalate_cons_of_ne_nil]
      exact join_congr before after (by simp) (by simp) hpair
  | nil =>
    rcases List.eq_nil_or_concat before with rfl | ⟨before, w, rfl⟩
    · simp at hlen
    · rw [List.concat_eq_append, List.append_assoc, List.singleton_append]
      refine ⟨before ++ [w ++ sep :: a, b], by simp, by simp, ?_⟩
      have hpair : [sep].intercalate [w ++ sep :: a, b] = [sep].intercalate [w, a ++ sep :: b] := by
        simp [List.intercalate_cons_of_ne_nil]
      exact join_congr before [] (by simp) (by simp) hpair

theorem mem_of_mem_join {c : α} (h : c ∈ [sep].intercalate ts) : c = sep ∨ ∃ t ∈ ts, c ∈ t := by
  induction ts with
  | nil => simp at h
  | cons t ts ih =>
    by_cases hts : ts = []
    · subst hts
      exact Or.inr ⟨t, List.mem_cons_self, by simpa using h⟩
    · rw [List.intercalate_cons_of_ne_nil hts, List.append_assoc, List.mem_append, List.singleton_append, List.mem_cons] at h
      rcases h with h | h | h
      · exact Or.inr ⟨t, List.mem_cons_self, h⟩
      · exact Or.inl h
      · rcases ih h with h | ⟨u, hu, hc⟩
        · exact Or.inl h
        · exact Or.inr ⟨u, List.mem_cons_of_mem _ hu, hc⟩

theorem mem_join_of_mem {c : α} {t : List α} (ht : t ∈ ts) (hc : c ∈ t) : c ∈ [sep].intercalate ts := by
  obtain ⟨before, after, rfl⟩ := List.append_of_mem ht
  have hlast : c ∈ [sep].intercalate (t :: after) := by
    by_cases ha : after = []
    · simpa [ha] using hc
    · rw [List.intercalate_cons_of_ne_nil ha]
      simp [hc]
  by_cases hb : before = []
  · rwa [hb]
  · rw [join_append hb (List.cons_ne_nil _ _)]
    exact List.mem_append_right _ (List.mem_cons_of_mem _ hlast)

/-! The pieces. -/

section Pieces

variable [BEq α]

theorem length_le_pieces (sep : α) (ts : List (List α)) : ts.length ≤ (ts.flatMap (List.splitOn sep)).length := by
  induction ts with
  | nil => exact le_rfl
  | cons t ts ih =>
    have hpos := List.length_pos_of_ne_nil (List.splitOn_ne_nil sep t)
    rw [List.flatMap_cons, List.length_append, List.length_cons]
    omega

variable [LawfulBEq α]

theorem splitOn_join (hne : ts ≠ []) : ([sep].intercalate ts).splitOn sep = ts.flatMap (List.splitOn sep) := by
  induction ts with
  | nil => exact absurd rfl hne
  | cons t ts ih =>
    cases ts with
    | nil => simp
    | cons t' ts =>
      have hrest : t' :: ts ≠ [] := List.cons_ne_nil _ _
      rw [List.intercalate_cons_of_ne_nil hrest, List.append_assoc, List.singleton_append, List.splitOn_append_cons_self,
        ih hrest]
      exact List.flatMap_cons.symm

theorem flatMap_splitOn_of_free (hfree : ∀ t ∈ ts, sep ∉ t) : ts.flatMap (List.splitOn sep) = ts := by
  induction ts with
  | nil => rfl
  | cons t ts ih =>
    obtain ⟨ht, hts⟩ := List.forall_mem_cons.1 hfree
    rw [List.flatMap_cons, List.splitOn_eq_singleton ht, ih hts, List.singleton_append]

theorem free_of_length_pieces (h : (ts.flatMap (List.splitOn sep)).length = ts.length) : ∀ t ∈ ts, sep ∉ t := by
  induction ts with
  | nil => exact List.forall_mem_nil _
  | cons t ts ih =>
    have hpos := List.length_pos_of_ne_nil (List.splitOn_ne_nil sep t)
    have hrest := length_le_pieces sep ts
    rw [List.flatMap_cons, List.length_append, List.length_cons] at h
    refine List.forall_mem_cons.2 ⟨fun hmem => ?_, ih (by omega)⟩
    obtain ⟨a, b, rfl⟩ := List.append_of_mem hmem
    have ha := List.length_pos_of_ne_nil (List.splitOn_ne_nil sep a)
    have hb := List.length_pos_of_ne_nil (List.splitOn_ne_nil sep b)
    rw [List.splitOn_append_cons_self, List.length_append] at h
    omega

theorem not_mem_of_mem_splitOn {s t : List α} (ht : t ∈ s.splitOn sep) : sep ∉ t := by
  refine free_of_length_pieces ?_ t ht
  rw [← splitOn_join (List.splitOn_ne_nil sep s), List.intercalate_splitOn]

theorem mem_of_mem_mem_splitOn {s t : List α} {c : α} (ht : t ∈ s.splitOn sep) (hc : c ∈ t) : c ∈ s := by
  have hjoin : c ∈ [sep].intercalate (s.splitOn sep) := mem_join_of_mem ht hc
  rwa [List.intercalate_splitOn] at hjoin

theorem splitOn_join_of_free (hfree : ∀ t ∈ ts, sep ∉ t) (hne : ts ≠ []) : ([sep].intercalate ts).splitOn sep = ts :=
  (splitOn_join hne).trans (flatMap_splitOn_of_free hfree)

theorem splitOn_append_left {w : List α} (hw : sep ∉ w) (t : List α) :
    ∃ p ps, t.splitOn sep = p :: ps ∧ (w ++ t).splitOn sep = (w ++ p) :: ps := by
  obtain ⟨p, ps, hp⟩ := List.exists_cons_of_ne_nil (List.splitOn_ne_nil sep t)
  have hfree : ∀ q ∈ p :: ps, sep ∉ q := fun q hq => not_mem_of_mem_splitOn (hp ▸ hq)
  have hjoin : w ++ t = [sep].intercalate ((w ++ p) :: ps) := by
    have ht : [sep].intercalate (t.splitOn sep) = t := List.intercalate_splitOn sep
    rw [← ht, hp]
    by_cases hps : ps = []
    · simp [hps]
    · rw [List.intercalate_cons_of_ne_nil hps, List.intercalate_cons_of_ne_nil hps, List.append_assoc, List.append_assoc,
        List.append_assoc]
  refine ⟨p, ps, hp, ?_⟩
  rw [hjoin]
  refine splitOn_join_of_free (List.forall_mem_cons.2 ⟨?_, fun q hq => hfree q (List.mem_cons_of_mem _ hq)⟩) (List.cons_ne_nil _ _)
  exact fun hmem => (List.mem_append.1 hmem).elim hw (hfree p List.mem_cons_self)

theorem splitOn_append_right {w : List α} (hw : sep ∉ w) (t : List α) :
    ∃ ps p, t.splitOn sep = ps ++ [p] ∧ (t ++ w).splitOn sep = ps ++ [p ++ w] := by
  obtain ⟨ps, p, hp⟩ := (List.eq_nil_or_concat (t.splitOn sep)).resolve_left (List.splitOn_ne_nil sep t)
  rw [List.concat_eq_append] at hp
  have hfree : ∀ q ∈ ps ++ [p], sep ∉ q := fun q hq => not_mem_of_mem_splitOn (hp ▸ hq)
  have hjoin : t ++ w = [sep].intercalate (ps ++ [p ++ w]) := by
    have ht : [sep].intercalate (t.splitOn sep) = t := List.intercalate_splitOn sep
    rw [← ht, hp]
    by_cases hps : ps = []
    · simp [hps]
    · rw [join_append hps (by simp), join_append hps (by simp)]
      simp
  refine ⟨ps, p, hp, ?_⟩
  rw [hjoin]
  refine splitOn_join_of_free (fun q hq => ?_) (by simp)
  rcases List.mem_append.1 hq with hq | hq
  · exact hfree q (List.mem_append_left _ hq)
  · rw [List.mem_singleton.1 hq]
    exact fun hmem => (List.mem_append.1 hmem).elim (hfree p (by simp)) hw

/-! A map that keeps the separator apart. -/

section Map

variable {g : α → List α} (hsep : g sep = [sep]) (hapart : ∀ x, sep ∈ g x → x = sep)
include hsep

omit [BEq α] [LawfulBEq α] in
theorem flatMap_join (ts : List (List α)) : ([sep].intercalate ts).flatMap g = [sep].intercalate (ts.map (List.flatMap g)) := by
  induction ts with
  | nil => rfl
  | cons t ts ih =>
    by_cases hts : ts = []
    · simp [hts]
    · have hmap : ts.map (List.flatMap g) ≠ [] := by simpa using hts
      rw [List.intercalate_cons_of_ne_nil hts, List.map_cons, List.intercalate_cons_of_ne_nil hmap, List.flatMap_append,
        List.flatMap_append, ih, List.flatMap_singleton, hsep]

include hapart

theorem splitOn_flatMap (s : List α) : (s.flatMap g).splitOn sep = (s.splitOn sep).map (List.flatMap g) := by
  have hs : [sep].intercalate (s.splitOn sep) = s := List.intercalate_splitOn sep
  conv_lhs => rw [← hs, flatMap_join hsep]
  refine splitOn_join_of_free ?_ (by simp [List.splitOn_ne_nil])
  rw [List.forall_mem_map]
  intro t ht hmem
  obtain ⟨x, hx, hxsep⟩ := List.mem_flatMap.1 hmem
  exact not_mem_of_mem_splitOn ht (hapart x hxsep ▸ hx)

omit [BEq α] [LawfulBEq α] in
theorem span_flatMap [DecidableEq α] (s : List α) :
    (s.flatMap g).takeWhile (· ≠ sep) = (s.takeWhile (· ≠ sep)).flatMap g ∧
      (s.flatMap g).dropWhile (· ≠ sep) = (s.dropWhile (· ≠ sep)).flatMap g := by
  induction s with
  | nil => exact ⟨rfl, rfl⟩
  | cons x s ih =>
    by_cases hx : x = sep
    · subst hx
      simp [hsep]
    · have hfree : ∀ y ∈ g x, decide (y ≠ sep) = true := fun y hy => decide_eq_true fun h => hx (hapart x (h ▸ hy))
      have hkeep : decide (x ≠ sep) = true := decide_eq_true hx
      constructor
      · rw [List.flatMap_cons, List.takeWhile_append_of_pos hfree, ih.1, List.takeWhile_cons, if_pos hkeep, List.flatMap_cons]
      · rw [List.flatMap_cons, List.dropWhile_append_of_pos hfree, ih.2, List.dropWhile_cons, if_pos hkeep]

end Map

omit [BEq α] [LawfulBEq α] in
theorem dropWhile_eq_cons [DecidableEq α] {s : List α} (h : sep ∈ s) : ∃ r, s.dropWhile (· ≠ sep) = sep :: r := by
  induction s with
  | nil => cases h
  | cons x s ih =>
    by_cases hx : x = sep
    · exact ⟨s, by simp [hx]⟩
    · obtain ⟨r, hr⟩ := ih ((List.mem_cons.1 h).resolve_left (Ne.symm hx))
      exact ⟨r, by rw [List.dropWhile_cons, if_pos (decide_eq_true hx), hr]⟩

/-- Texts that are free of the separator are read off their pieces, among as many texts of any kind. -/
theorem eq_of_pieces_eq (hfree : ∀ t ∈ ts, sep ∉ t) (hlen : us.length = ts.length)
    (h : us.flatMap (List.splitOn sep) = ts.flatMap (List.splitOn sep)) : us = ts := by
  rw [flatMap_splitOn_of_free hfree] at h
  have hus : ∀ u ∈ us, sep ∉ u := free_of_length_pieces (by rw [h, hlen])
  rwa [flatMap_splitOn_of_free hus] at h

theorem eq_of_join_eq (hfree : ∀ t ∈ ts, sep ∉ t) (hne : ts ≠ []) (hlen : us.length = ts.length)
    (h : [sep].intercalate us = [sep].intercalate ts) : us = ts := by
  have hus : us ≠ [] := by
    rw [← List.length_pos_iff, hlen, List.length_pos_iff]
    exact hne
  refine eq_of_pieces_eq hfree hlen ?_
  rw [← splitOn_join hus, ← splitOn_join hne, h]

/-- Behind texts that are free of the separator stand one more of them and a last text of any kind. Another list with
the same joined text either is the same, or takes a piece of the last text for the one before it. -/
theorem eq_or_piece_of_join_eq (hfree : ∀ t ∈ ts, sep ∉ t) (hlen : us.length = ts.length) {m m' last last' : List α}
    (hm : sep ∉ m) (hm' : sep ∉ m') (h : [sep].intercalate (us ++ [m', last']) = [sep].intercalate (ts ++ [m, last])) :
    (us = ts ∧ m' = m ∧ last' = last) ∨ m' ∈ (last.splitOn sep).dropLast := by
  have hpieces := congrArg (List.splitOn sep) h
  rw [splitOn_join (by simp), splitOn_join (by simp), List.flatMap_append, List.flatMap_append,
    flatMap_splitOn_of_free hfree] at hpieces
  simp only [List.flatMap_cons, List.flatMap_nil, List.append_nil, List.splitOn_eq_singleton hm, List.splitOn_eq_singleton hm',
    List.singleton_append] at hpieces
  -- the texts of `us` have no fewer pieces than there are texts in `ts`
  obtain ⟨bs, hbs⟩ : ts <+: us.flatMap (List.splitOn sep) := by
    refine List.prefix_of_prefix_length_le ?_ (List.prefix_append _ (m' :: last'.splitOn sep)) ?_
    · rw [hpieces]
      exact List.prefix_append _ _
    · rw [← hlen]
      exact length_le_pieces sep us
  rw [← hbs, List.append_assoc, List.append_cancel_left_eq] at hpieces
  cases bs with
  | nil =>
    rw [List.nil_append, List.cons.injEq] at hpieces
    rw [List.append_nil] at hbs
    have hlast := congrArg [sep].intercalate hpieces.2
    rw [List.intercalate_splitOn, List.intercalate_splitOn] at hlast
    refine Or.inl ⟨eq_of_pieces_eq hfree hlen ?_, hpieces.1, hlast⟩
    rw [← hbs, flatMap_splitOn_of_free hfree]
  | cons b bs =>
    rw [List.cons_append, List.cons.injEq] at hpieces
    refine Or.inr ?_
    rw [← hpieces.2, List.dropLast_append_of_ne_nil (List.cons_ne_nil _ _),
      List.dropLast_cons_of_ne_nil (List.splitOn_ne_nil sep last')]
    simp

end Pieces

end Lib.Separated
