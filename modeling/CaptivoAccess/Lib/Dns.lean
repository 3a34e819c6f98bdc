import CaptivoAccess.Lib.Utf8

/-! Names made of labels separated by dots. -/

namespace Lib.Dns

abbrev Text := List Char

def alnum (c : Char) : Bool := ('a' ≤ c && c ≤ 'z') || ('0' ≤ c && c ≤ '9')

/-- A single lowercase label: `^[a-z0-9](?:[a-z0-9-]{0,61}[a-z0-9])?$`. -/
def isLabel (s : Text) : Bool :=
  s.length ≤ 63 && s.all (fun c => alnum c || c = '-') && (s.head?.any alnum) && (s.getLast?.any alnum)

/-- Labels each followed by a dot, then a top level of at least two letters, 253 characters at
most: `^(?=.{1,253}$)([a-z0-9]([a-z0-9-]{0,61}[a-z0-9])?\.)+[a-z]{2,}$`. -/
def isFqdn (s : Text) : Bool :=
  let parts := s.splitOn '.'
  s.length ≤ 253 && 2 ≤ parts.length && parts.dropLast.all isLabel &&
    2 ≤ (parts.getLastD []).length && (parts.getLastD []).all fun c => 'a' ≤ c && c ≤ 'z'

theorem toLower_of_alnum {c : Char} (h : alnum c = true) : c.toLower = c := by
  simp only [alnum, Bool.or_eq_true, Bool.and_eq_true, decide_eq_true_eq] at h
  unfold Char.toLower
  rw [dif_neg]
  intro hu
  simp only [Char.le_def, ge_iff_le, UInt32.le_iff_toNat_le] at h hu
  simp at h hu
  omega

theorem isLabel_no_dot {s : Text} (h : isLabel s = true) : '.' ∉ s := by
  intro hm
  simp only [isLabel, Bool.and_eq_true, List.all_eq_true] at h
  exact absurd (h.1.1.2 '.' hm) (by decide)

theorem last_label_unique {x y a b : Text} (ha : '.' ∉ a) (hb : '.' ∉ b) (h : x ++ '.' :: a = y ++ '.' :: b) :
    x = y ∧ a = b := by
  rcases List.append_eq_append_iff.mp h with ⟨c, hy, hc⟩ | ⟨c, hx, hc⟩
  · cases c with
    | nil =>
      rw [List.nil_append, List.cons.injEq] at hc
      exact ⟨by rw [hy, List.append_nil], hc.2⟩
    | cons d c =>
      rw [List.cons_append, List.cons.injEq] at hc
      exact absurd (by rw [hc.2]; simp) ha
  · cases c with
    | nil =>
      rw [List.nil_append, List.cons.injEq] at hc
      exact ⟨by rw [hx, List.append_nil], hc.2.symm⟩
    | cons d c =>
      rw [List.cons_append, List.cons.injEq] at hc
      exact absurd (by rw [hc.2]; simp) hb

theorem mem_intercalate {sep : Text} {parts : List Text} {c : Char} (h : c ∈ sep.intercalate parts) :
    c ∈ sep ∨ ∃ part ∈ parts, c ∈ part := by
  induction parts with
  | nil => simp [List.intercalate] at h
  | cons p parts ih =>
    cases parts with
    | nil => exact Or.inr ⟨p, List.mem_cons_self, by simpa [List.intercalate] using h⟩
    | cons q parts =>
      have hcons : sep.intercalate (p :: q :: parts) = p ++ sep ++ sep.intercalate (q :: parts) := by
        simp [List.intercalate]
      rw [hcons, List.mem_append, List.mem_append] at h
      rcases h with (h | h) | h
      · exact Or.inr ⟨p, List.mem_cons_self, h⟩
      · exact Or.inl h
      · rcases ih h with hs | ⟨part, hpart, hc⟩
        · exact Or.inl hs
        · exact Or.inr ⟨part, List.mem_cons_of_mem _ hpart, hc⟩

theorem isFqdn_chars {s : Text} (h : isFqdn s = true) {c : Char} (hc : c ∈ s) : c = '.' ∨ c = '-' ∨ alnum c = true := by
  simp only [isFqdn, Bool.and_eq_true, decide_eq_true_eq, List.all_eq_true] at h
  have hjoin : ['.'].intercalate (s.splitOn '.') = s := List.intercalate_splitOn '.'
  rw [← hjoin] at hc
  rcases mem_intercalate hc with hdot | ⟨part, hpart, hc⟩
  · exact Or.inl (List.mem_singleton.1 hdot)
  · have hne : s.splitOn '.' ≠ [] := fun he => by simp [he] at h
    rw [← List.dropLast_append_getLast hne, List.mem_append, List.mem_singleton] at hpart
    rcases hpart with hlabel | hlast
    · have hl := h.1.1.2 part hlabel
      simp only [isLabel, Bool.and_eq_true, List.all_eq_true] at hl
      have := hl.1.1.2 c hc
      simp only [Bool.or_eq_true, decide_eq_true_eq] at this
      tauto
    · have hl : (s.splitOn '.').getLastD [] = part := by
        rw [List.getLastD_eq_getLast?, List.getLast?_eq_getLast_of_ne_nil hne, Option.getD_some, hlast]
      rw [hl] at h
      have := h.2 c hc
      simp [alnum, this]

end Lib.Dns
