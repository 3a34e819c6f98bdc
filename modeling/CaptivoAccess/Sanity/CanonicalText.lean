import CaptivoAccess.Lib.Separated
import CaptivoAccess.Proofs.AdminRoundTrip

/-! The fields of a canonical text: the separator is in no number and in no JSON text, and
a number is read off its text. -/

namespace Captivo.Audit

open Lib.JsonText Lib.JsValue

theorem joinUS_eq (ts : List Units) : joinUS ts = [31].intercalate ts := by
  induction ts with
  | nil => rfl
  | cons t ts ih =>
    cases ts with
    | nil => simp [joinUS]
    | cons t' ts =>
      rw [joinUS, ih, List.intercalate_cons_of_ne_nil (List.cons_ne_nil _ _)]
      simp

/-! Numbers. -/

/-- A character of a decimal number. -/
def isNumeral (c : Char) : Bool := c.isDigit || c = '-'

theorem isNumeral_toNat {c : Char} (h : isNumeral c = true) : 32 ≤ c.toNat ∧ c.toNat < 128 := by
  rw [isNumeral, Bool.or_eq_true, decide_eq_true_eq] at h
  rcases h with h | rfl
  · have hd := Char.isDigit_iff_toNat.1 h
    rw [show '0'.toNat = 48 from rfl, show '9'.toNat = 57 from rfl] at hd
    omega
  · decide

theorem isNumeral_nat (n : ℕ) : ∀ c ∈ (toString n).toList, isNumeral c = true := by
  intro c hc
  rw [show toString n = n.repr from rfl, Nat.toList_repr] at hc
  simp [isNumeral, Nat.isDigit_of_mem_toDigits (by omega) le_rfl hc]

theorem isNumeral_int (n : ℤ) : ∀ c ∈ (toString n).toList, isNumeral c = true := by
  intro c hc
  rw [Int.toString_eq_repr, Int.repr_eq_if] at hc
  split_ifs at hc with hn
  · exact isNumeral_nat _ c hc
  · rw [String.toList_append, List.mem_append] at hc
    rcases hc with hc | hc
    · have hc : c = '-' := by simpa using hc
      simp [isNumeral, hc]
    · exact isNumeral_nat _ c hc

theorem units_injective {s t : String} (hs : ∀ c ∈ s.toList, isNumeral c = true) (ht : ∀ c ∈ t.toList, isNumeral c = true)
    (h : units s = units t) : s = t := by
  have hchar : ∀ c d : Char, isNumeral c = true → isNumeral d = true → UInt16.ofNat c.toNat = UInt16.ofNat d.toNat → c = d := by
    intro c d hc hd hcd
    have hc := isNumeral_toNat hc
    have hd := isNumeral_toNat hd
    have hnat := congrArg UInt16.toNat hcd
    rw [UInt16.toNat_ofNat', UInt16.toNat_ofNat', Nat.mod_eq_of_lt (by omega), Nat.mod_eq_of_lt (by omega)] at hnat
    exact Char.toNat_inj.1 hnat
  rw [← String.toList_inj]
  unfold units at h
  generalize s.toList = s at *
  generalize t.toList = t at *
  induction s generalizing t with
  | nil => simpa using h.symm
  | cons c s ih =>
    cases t with
    | nil => simp at h
    | cons d t =>
      rw [List.map_cons, List.map_cons, List.cons.injEq] at h
      rw [List.forall_mem_cons] at hs ht
      rw [hchar c d hs.1 ht.1 h.1, ih hs.2 t ht.2 h.2]

theorem separator_not_mem_units {s : String} (hs : ∀ c ∈ s.toList, isNumeral c = true) : 31 ∉ units s := by
  intro hmem
  obtain ⟨c, hc, heq⟩ := List.mem_map.1 hmem
  have hc := isNumeral_toNat (hs c hc)
  have hnat := congrArg UInt16.toNat heq
  rw [UInt16.toNat_ofNat', Nat.mod_eq_of_lt (by omega)] at hnat
  simp at hnat
  omega

theorem toString_nat_injective {m n : ℕ} (h : toString m = toString n) : m = n := by
  have hdigits : Nat.toDigits 10 m = Nat.toDigits 10 n := by
    rw [← Nat.toList_repr, ← Nat.toList_repr]
    exact congrArg String.toList h
  rw [← Nat.ofDigitChars_toDigits (n := m) (by decide : 1 < 10) le_rfl, hdigits,
    Nat.ofDigitChars_toDigits (by decide) le_rfl]

theorem minus_ne_repr (s : String) (n : ℕ) : "-" ++ s ≠ n.repr := by
  intro h
  have hmem : '-' ∈ (toString n).toList := by
    rw [show toString n = n.repr from rfl, ← h, String.toList_append]
    simp
  rw [show toString n = n.repr from rfl, Nat.toList_repr] at hmem
  exact absurd (Nat.isDigit_of_mem_toDigits (by decide) le_rfl hmem) (by decide)

theorem toString_int_injective {m n : ℤ} (h : toString m = toString n) : m = n := by
  rw [Int.toString_eq_repr, Int.toString_eq_repr, Int.repr_eq_if, Int.repr_eq_if] at h
  split_ifs at h with hm hn hn
  · have := toString_nat_injective h
    omega
  · exact absurd h.symm (minus_ne_repr _ _)
  · exact absurd h (minus_ne_repr _ _)
  · have hs := congrArg String.toList h
    rw [String.toList_append, String.toList_append, List.append_cancel_left_eq, String.toList_inj] at hs
    have := toString_nat_injective hs
    omega

theorem bigintText_injective : Function.Injective bigintText :=
  fun m n h => toString_nat_injective (units_injective (isNumeral_nat m) (isNumeral_nat n) h)

theorem intText_injective {m n : ℤ} (h : units (toString m) = units (toString n)) : m = n :=
  toString_int_injective (units_injective (isNumeral_int m) (isNumeral_int n) h)

/-! JSON. A control character is escaped in a string, and there is none outside of one. -/

theorem separator_not_mem_escapeHex (c : UInt16) : 31 ∉ escapeHex c := by
  have hdigit : ∀ n < 16, hexDigit n ≠ 31 := by decide
  have hc : c.toNat < 65536 := c.toNat_lt
  simp only [escapeHex, List.mem_cons, List.not_mem_nil, or_false, not_or]
  refine ⟨by decide, by decide, ?_, ?_, ?_, ?_⟩ <;> exact (hdigit _ (by omega)).symm

theorem separator_not_mem_escapeUnit (c : UInt16) : 31 ∉ escapeUnit c := by
  unfold escapeUnit
  split_ifs with h1 h2 h3 h4 h5 h6 h7 h8
  · decide
  · decide
  · decide
  · decide
  · decide
  · decide
  · decide
  · exact separator_not_mem_escapeHex c
  · intro hmem
    rw [List.mem_singleton] at hmem
    subst hmem
    exact h8 (Or.inl (by decide))

theorem separator_not_mem_quoteFrom {low : Bool} {s : Units} (hl : LowFirst low s) : 31 ∉ quoteFrom low s := by
  induction s generalizing low with
  | nil => cases low <;> exact List.not_mem_nil
  | cons c s ih =>
    have hfalse : LowFirst false s := nofun
    cases low with
    | true =>
      have hc : isLow c = true := by simpa using hl rfl
      rw [quoteFrom, List.mem_cons, not_or]
      refine ⟨?_, ih hfalse⟩
      rintro rfl
      exact absurd hc (by decide)
    | false =>
      rw [quoteFrom]
      split_ifs with hp
      · rw [Bool.and_eq_true] at hp
        rw [List.mem_cons, not_or]
        refine ⟨?_, ih ?_⟩
        · rintro rfl
          exact absurd hp.1 (by decide)
        · intro _
          cases s with
          | nil => rfl
          | cons d s => simpa using hp.2
      · rw [List.mem_append, not_or]
        exact ⟨separator_not_mem_escapeUnit c, ih hfalse⟩

theorem separator_not_mem_quote (s : Units) : 31 ∉ quote s := by
  rw [quote, List.cons_append, List.mem_cons, List.mem_append, not_or, not_or]
  exact ⟨by decide, separator_not_mem_quoteFrom fun h => Bool.noConfusion h, by decide⟩

theorem separator_not_mem_joinUntil {close : UInt16} (hclose : 31 ≠ close) {xs : List Units} (h : ∀ x ∈ xs, 31 ∉ x) :
    31 ∉ joinUntil close xs := by
  induction xs with
  | nil => simpa [joinUntil] using hclose
  | cons x xs ih =>
    obtain ⟨hx, hxs⟩ := List.forall_mem_cons.1 h
    cases xs with
    | nil => simp [joinUntil, hx, hclose]
    | cons y xs =>
      rw [joinUntil, List.mem_append, List.mem_cons, not_or, not_or]
      exact ⟨hx, by decide, ih hxs⟩

mutual

theorem separator_not_mem_render : (j : Json) → 31 ∉ render j
  | .null => by decide
  | .bool true => by decide
  | .bool false => by decide
  | .num n => fun h => absurd (n.units 31 h) (by decide)
  | .str s => separator_not_mem_quote s
  | .arr xs => by
    rw [render, List.mem_cons, not_or]
    exact ⟨by decide, separator_not_mem_joinUntil (by decide) (separator_not_mem_renderAll xs)⟩
  | .obj fs => by
    rw [render, List.mem_cons, not_or]
    exact ⟨by decide, separator_not_mem_joinUntil (by decide) (separator_not_mem_renderFields fs)⟩

theorem separator_not_mem_renderAll : (xs : List Json) → ∀ t ∈ renderAll xs, 31 ∉ t
  | [] => List.forall_mem_nil _
  | x :: xs => List.forall_mem_cons.2 ⟨separator_not_mem_render x, separator_not_mem_renderAll xs⟩

theorem separator_not_mem_renderFields : (fs : List (Units × Json)) → ∀ t ∈ renderFields fs, 31 ∉ t
  | [] => List.forall_mem_nil _
  | (k, v) :: fs => by
    refine List.forall_mem_cons.2 ⟨?_, separator_not_mem_renderFields fs⟩
    rw [field, List.mem_append, List.mem_cons, not_or, not_or]
    exact ⟨separator_not_mem_quote k, by decide, separator_not_mem_render v⟩

end

theorem separator_not_mem_stableStringify (v : JsVal) : 31 ∉ stableStringify v := by
  rw [stableStringify_eq_render]
  exact separator_not_mem_render _

end Captivo.Audit
