import Mathlib.Tactic

/-! UTF-8 decoding with replacement, as Go's `unicode/utf8` does it: a byte that
starts no well-formed sequence is one replacement rune of width one. A sequence
cannot run across an ASCII byte, so what is decoded in front of one is decoded the
same whatever follows. A string is valid if it is what some text is written as, and
is then read back as that text. -/

namespace Lib.Utf8

abbrev Bytes := List UInt8

-- named, so that a test for membership refers to them by name
instance lawfulBytes : LawfulBEq Bytes := inferInstance

instance lawfulText : LawfulBEq (List Char) := inferInstance

/-- A text of characters below U+0100, one byte each. -/
def ascii (s : String) : Bytes := s.toList.map fun c => UInt8.ofNat c.toNat

/-- The bytes of a string in UTF-8. -/
def bytesOf (s : String) : Bytes := s.toByteArray.data.toList

/-- U+FFFD, the rune an undecodable byte stands for. -/
def runeError : ℕ := 0xFFFD

/-- What a lead byte announces: how many bytes follow it, the range of the first
of them, and the payload bits of the lead byte itself. -/
def lead (b : UInt8) : Option (ℕ × UInt8 × UInt8 × ℕ) :=
  if b < 0xC2 then none
  else if b < 0xE0 then some (1, 0x80, 0xBF, b.toNat % 32)
  else if b = 0xE0 then some (2, 0xA0, 0xBF, 0)
  else if b = 0xED then some (2, 0x80, 0x9F, 13)
  else if b < 0xF0 then some (2, 0x80, 0xBF, b.toNat % 16)
  else if b = 0xF0 then some (3, 0x90, 0xBF, 0)
  else if b < 0xF4 then some (3, 0x80, 0xBF, b.toNat % 8)
  else if b = 0xF4 then some (3, 0x80, 0x8F, 4)
  else none

/-- The following bytes of a sequence; only the first one has a narrower range. -/
def tails : ℕ → UInt8 → UInt8 → ℕ → Bytes → Option (ℕ × Bytes)
  | 0, _, _, acc, r => some (acc, r)
  | _ + 1, _, _, _, [] => none
  | k + 1, lo, hi, acc, b :: r =>
    if lo ≤ b ∧ b ≤ hi then tails k 0x80 0xBF (acc * 64 + b.toNat % 64) r else none

/-- The first rune of the input and what follows it; `none` at the end of the input. -/
def decodeRune : Bytes → Option (ℕ × Bytes)
  | [] => none
  | b :: rest =>
    if b < 0x80 then some (b.toNat, rest)
    else match lead b with
      | none => some (runeError, rest)
      | some (k, lo, hi, acc) => some ((tails k lo hi acc rest).getD (runeError, rest))

/-- The next `n` runes, each as decoded; `none` when the input ends before. -/
def takeRunes : ℕ → Bytes → Option (List ℕ × Bytes)
  | 0, bs => some ([], bs)
  | n + 1, bs =>
    match decodeRune bs with
    | none => none
    | some (c, r) => (takeRunes n r).map fun vr => (c :: vr.1, vr.2)

def textFrom : ℕ → Bytes → List Char
  | 0, _ => []
  | n + 1, bs =>
    match decodeRune bs with
    | none => []
    | some (c, r) => Char.ofNat c :: textFrom n r

/-- The runes of a string, as a `range` over it meets them. -/
def text (bs : Bytes) : List Char := textFrom bs.length bs

/-- The bytes of a rune; what is no Unicode scalar value is written as the replacement rune. -/
def encodeRune (c : ℕ) : Bytes :=
  if c < 0x80 then [UInt8.ofNat c]
  else if c < 0x800 then [UInt8.ofNat (0xC0 + c / 64), UInt8.ofNat (0x80 + c % 64)]
  else if 0x10FFFF < c ∨ (0xD800 ≤ c ∧ c ≤ 0xDFFF) then [0xEF, 0xBF, 0xBD]
  else if c < 0x10000 then
    [UInt8.ofNat (0xE0 + c / 4096), UInt8.ofNat (0x80 + c / 64 % 64), UInt8.ofNat (0x80 + c % 64)]
  else
    [UInt8.ofNat (0xF0 + c / 262144), UInt8.ofNat (0x80 + c / 4096 % 64), UInt8.ofNat (0x80 + c / 64 % 64),
      UInt8.ofNat (0x80 + c % 64)]

/-- An integer in decimal, with a sign only where it is negative. -/
def decimal (n : ℤ) : Bytes :=
  (if n < 0 then [45] else []) ++
    if n = 0 then [48] else (Nat.digits 10 n.natAbs).reverse.map fun d => UInt8.ofNat (48 + d)

/-- No sequence begun in `xs` runs on into `ys`: an ASCII byte stands in the way. -/
def Barrier (xs ys : Bytes) : Prop := (∃ b ∈ xs, b < 0x80) ∨ ∃ b r, ys = b :: r ∧ b < 0x80

theorem Barrier.of_suffix {xs r ys : Bytes} (hb : Barrier r ys) (hs : r <:+ xs) : Barrier xs ys := by
  rcases hb with ⟨b, hm, hlt⟩ | h
  · exact Or.inl ⟨b, hs.subset hm, hlt⟩
  · exact Or.inr h

theorem lead_lo {b lo hi : UInt8} {k acc : ℕ} (h : lead b = some (k, lo, hi, acc)) : 0x80 ≤ lo := by
  unfold lead at h
  split_ifs at h <;> simp only [Option.some.injEq, Prod.mk.injEq] at h <;>
    obtain ⟨-, rfl, -⟩ := h <;> decide

variable {xs r : Bytes} {lo hi : UInt8} {k : ℕ} {acc c : ℕ}

theorem tails_suffix
    (h : tails k lo hi acc xs = some (c, r)) : r <:+ xs := by
  induction k generalizing lo hi acc xs with
  | zero =>
    simp only [tails, Option.some.injEq, Prod.mk.injEq] at h
    rw [h.2]
  | succ k ih =>
    cases xs with
    | nil => simp [tails] at h
    | cons b xs =>
      simp only [tails] at h
      split_ifs at h
      exact (ih h).trans (List.suffix_cons _ _)

theorem tails_append (ys : Bytes)
    (h : tails k lo hi acc xs = some (c, r)) : tails k lo hi acc (xs ++ ys) = some (c, r ++ ys) := by
  induction k generalizing lo hi acc xs with
  | zero =>
    simp only [tails, Option.some.injEq, Prod.mk.injEq] at h ⊢
    exact ⟨h.1, by rw [h.2]⟩
  | succ k ih =>
    cases xs with
    | nil => simp [tails] at h
    | cons b xs =>
      simp only [tails, List.cons_append] at h ⊢
      split_ifs at h ⊢
      exact ih h

theorem tails_none_append {acc : ℕ} {xs ys : Bytes} (hlo : 0x80 ≤ lo)
    (hb : Barrier xs ys) (h : tails k lo hi acc xs = none) : tails k lo hi acc (xs ++ ys) = none := by
  induction k generalizing lo hi acc xs with
  | zero => simp [tails] at h
  | succ k ih =>
    cases xs with
    | nil =>
      rcases hb with ⟨b, hm, -⟩ | ⟨b, r, rfl, hlt⟩
      · simp at hm
      · have : ¬ lo ≤ b := fun hle => absurd (UInt8.le_trans hlo hle) (UInt8.not_le.mpr hlt)
        simp [tails, this]
    | cons b xs =>
      simp only [tails, List.cons_append] at h ⊢
      split_ifs at h ⊢ with hc
      · refine ih (by decide) ?_ h
        rcases hb with ⟨b', hm, hlt⟩ | hy
        · rcases List.mem_cons.mp hm with rfl | hm
          · exact absurd (UInt8.le_trans hlo hc.1) (UInt8.not_le.mpr hlt)
          · exact Or.inl ⟨b', hm, hlt⟩
        · exact Or.inr hy
      · rfl

theorem decodeRune_suffix {c : ℕ} (h : decodeRune xs = some (c, r)) :
    r <:+ xs ∧ r.length < xs.length := by
  cases xs with
  | nil => simp [decodeRune] at h
  | cons b xs =>
    have key : r <:+ xs := by
      simp only [decodeRune] at h
      split_ifs at h
      · simp only [Option.some.injEq, Prod.mk.injEq] at h
        rw [h.2]
      · split at h
        · simp only [Option.some.injEq, Prod.mk.injEq] at h
          rw [h.2]
        · rename_i k lo hi acc _
          cases ht : tails k lo hi acc xs with
          | none =>
            simp only [ht, Option.getD_none, Option.some.injEq, Prod.mk.injEq] at h
            rw [h.2]
          | some cr =>
            simp only [ht, Option.getD_some, Option.some.injEq] at h
            exact tails_suffix (c := c) (by rw [ht, h])
    exact ⟨key.trans (List.suffix_cons _ _), by have := key.length_le; simp only [List.length_cons]; omega⟩

theorem decodeRune_append {xs ys r : Bytes} {c : ℕ} (hb : Barrier xs ys) (h : decodeRune xs = some (c, r)) :
    decodeRune (xs ++ ys) = some (c, r ++ ys) := by
  cases xs with
  | nil => simp [decodeRune] at h
  | cons b xs =>
    simp only [decodeRune, List.cons_append] at h ⊢
    split_ifs at h ⊢ with hlt
    · simp only [Option.some.injEq, Prod.mk.injEq] at h ⊢
      exact ⟨h.1, by rw [h.2]⟩
    · cases hl : lead b with
      | none =>
        simp only [hl, Option.some.injEq, Prod.mk.injEq] at h ⊢
        exact ⟨h.1, by rw [h.2]⟩
      | some klha =>
        obtain ⟨k, lo, hi, acc⟩ := klha
        simp only [hl] at h ⊢
        cases ht : tails k lo hi acc xs with
        | none =>
          have hb' : Barrier xs ys := by
            rcases hb with ⟨b', hm, hlt'⟩ | hy
            · rcases List.mem_cons.mp hm with rfl | hm
              · exact absurd hlt' hlt
              · exact Or.inl ⟨b', hm, hlt'⟩
            · exact Or.inr hy
          simp only [ht, Option.getD_none, Option.some.injEq, Prod.mk.injEq] at h
          rw [tails_none_append (lead_lo hl) hb' ht]
          simp only [Option.getD_none, Option.some.injEq, Prod.mk.injEq]
          exact ⟨h.1, by rw [h.2]⟩
        | some cr =>
          simp only [ht, Option.getD_some, Option.some.injEq] at h
          rw [tails_append ys (c := c) (r := r) (by rw [ht, h])]
          rfl

theorem tails_le (h : tails k lo hi acc xs = some (c, r)) :
    acc * 64 ^ k ≤ c := by
  induction k generalizing lo hi acc xs with
  | zero =>
    simp only [tails, Option.some.injEq, Prod.mk.injEq] at h
    rw [h.1, Nat.pow_zero, Nat.mul_one]
  | succ k ih =>
    cases xs with
    | nil => simp [tails] at h
    | cons b xs =>
      simp only [tails] at h
      split_ifs at h
      calc acc * 64 ^ (k + 1) = acc * 64 * 64 ^ k := by rw [Nat.pow_succ']; ring
        _ ≤ (acc * 64 + b.toNat % 64) * 64 ^ k := Nat.mul_le_mul_right _ (Nat.le_add_right _ _)
        _ ≤ c := ih h

/-- The lead byte and the least byte that may follow it are above the ASCII runes. -/
theorem lead_ge {b lo hi : UInt8} {k acc : ℕ} (h : lead b = some (k, lo, hi, acc)) :
    ∃ j, k = j + 1 ∧ 0x80 ≤ lo.toNat ∧ hi.toNat < 0xC0 ∧ 0x80 ≤ (acc * 64 + (lo.toNat - 0x80)) * 64 ^ j := by
  have hb : b.toNat < 256 := b.toNat_lt
  unfold lead at h
  simp only [UInt8.lt_iff_toNat_lt, UInt8.toNat_ofNat, UInt8.ext_iff] at h
  split_ifs at h <;> cases h
  · exact ⟨0, rfl, by decide, by decide, by simp; omega⟩
  · exact ⟨1, rfl, by decide, by decide, by decide⟩
  · exact ⟨1, rfl, by decide, by decide, by decide⟩
  · exact ⟨1, rfl, by decide, by decide, by simp; omega⟩
  · exact ⟨2, rfl, by decide, by decide, by decide⟩
  · exact ⟨2, rfl, by decide, by decide, by simp; omega⟩
  · exact ⟨2, rfl, by decide, by decide, by decide⟩

variable {b : UInt8}

theorem tails_ge (hl : lead b = some (k, lo, hi, acc))
    (h : tails k lo hi acc xs = some (c, r)) : 0x80 ≤ c := by
  obtain ⟨j, rfl, hlo, hhi, hge⟩ := lead_ge hl
  cases xs with
  | nil => simp [tails] at h
  | cons b1 xs =>
    simp only [tails] at h
    split_ifs at h with hrange
    have hlow := UInt8.le_iff_toNat_le.1 hrange.1
    have hhigh := UInt8.le_iff_toNat_le.1 hrange.2
    calc 0x80 ≤ (acc * 64 + (lo.toNat - 0x80)) * 64 ^ j := hge
      _ ≤ (acc * 64 + b1.toNat % 64) * 64 ^ j := Nat.mul_le_mul_right _ (by omega)
      _ ≤ c := tails_le h

theorem decodeRune_ascii {c : ℕ} (hc : c < 0x80) (h : decodeRune xs = some (c, r)) :
    ∃ b : UInt8, xs = b :: r ∧ b < 0x80 ∧ b.toNat = c := by
  cases xs with
  | nil => simp [decodeRune] at h
  | cons b xs =>
    simp only [decodeRune] at h
    split_ifs at h with hlt
    · simp only [Option.some.injEq, Prod.mk.injEq] at h
      exact ⟨b, by rw [h.2], hlt, h.1⟩
    · exfalso
      cases hl : lead b with
      | none =>
        simp only [hl, Option.some.injEq, Prod.mk.injEq, runeError] at h
        omega
      | some klha =>
        obtain ⟨k, lo, hi, acc⟩ := klha
        simp only [hl, Option.some.injEq] at h
        cases ht : tails k lo hi acc xs with
        | none =>
          simp only [ht, Option.getD_none, Prod.mk.injEq, runeError] at h
          omega
        | some cr =>
          simp only [ht, Option.getD_some] at h
          have hge := tails_ge (c := c) (r := r) hl (by rw [ht, h])
          omega

variable {n : ℕ}

theorem eq_toNat_of_ofNat {c : Char} (h : Char.ofNat n = c) (hc : c ≠ '\x00') : n = c.toNat := by
  by_cases hn : n.isValidChar
  · rw [← h, Char.ofNat, dif_pos hn]
    rfl
  · refine absurd ?_ hc
    rw [← h, Char.ofNat, dif_neg hn]
    rfl

theorem mem_of_mem_textFrom {xs : Bytes} {c : Char} (h : c ∈ textFrom k xs) (hc : c ≠ '\x00')
    (hlt : c.toNat < 0x80) : UInt8.ofNat c.toNat ∈ xs := by
  induction k generalizing xs with
  | zero => simp [textFrom] at h
  | succ k ih =>
    simp only [textFrom] at h
    cases hd : decodeRune xs with
    | none => simp [hd] at h
    | some nr =>
      obtain ⟨n, r⟩ := nr
      simp only [hd] at h
      rcases List.mem_cons.1 h with h | h
      · have hn := eq_toNat_of_ofNat h.symm hc
        obtain ⟨b, rfl, -, hb⟩ := decodeRune_ascii (hn ▸ hlt) hd
        rw [← hn, ← hb, UInt8.ofNat_toNat]
        exact List.mem_cons_self
      · exact (decodeRune_suffix hd).1.subset (ih h)

theorem mem_of_mem_text {xs : Bytes} {c : Char} (h : c ∈ text xs) (hc : c ≠ '\x00') (hlt : c.toNat < 0x80) :
    UInt8.ofNat c.toNat ∈ xs :=
  mem_of_mem_textFrom h hc hlt

variable {v : List ℕ}

theorem takeRunes_succ :
    takeRunes (n + 1) xs = some (v, r) ↔
      ∃ c xs' v', decodeRune xs = some (c, xs') ∧ takeRunes n xs' = some (v', r) ∧ v = c :: v' := by
  simp only [takeRunes]
  cases hd : decodeRune xs with
  | none => simp
  | some cr =>
    obtain ⟨c, xs'⟩ := cr
    constructor
    · intro h
      obtain ⟨⟨v', r'⟩, hv, he⟩ := Option.map_eq_some_iff.mp h
      simp only [Prod.mk.injEq] at he
      obtain ⟨rfl, rfl⟩ := he
      exact ⟨c, xs', v', rfl, hv, rfl⟩
    · rintro ⟨c', xs'', v', he, hv, rfl⟩
      simp only [Option.some.injEq, Prod.mk.injEq] at he
      obtain ⟨rfl, rfl⟩ := he
      simp only [hv, Option.map_some]

theorem takeRunes_suffix (h : takeRunes n xs = some (v, r)) :
    r <:+ xs := by
  induction n generalizing xs v with
  | zero =>
    simp only [takeRunes, Option.some.injEq, Prod.mk.injEq] at h
    rw [h.2]
  | succ n ih =>
    obtain ⟨c, xs', v', hd, hv, -⟩ := takeRunes_succ.mp h
    exact (ih hv).trans (decodeRune_suffix hd).1

theorem takeRunes_append {xs ys r : Bytes} (hb : Barrier r ys)
    (h : takeRunes n xs = some (v, r)) : takeRunes n (xs ++ ys) = some (v, r ++ ys) := by
  induction n generalizing xs v with
  | zero =>
    simp only [takeRunes, Option.some.injEq, Prod.mk.injEq] at h ⊢
    exact ⟨h.1, by rw [h.2]⟩
  | succ n ih =>
    obtain ⟨c, xs', v', hd, hv, rfl⟩ := takeRunes_succ.mp h
    have hbx : Barrier xs ys := hb.of_suffix (takeRunes_suffix h)
    exact takeRunes_succ.mpr ⟨c, xs' ++ ys, v', decodeRune_append hbx hd, ih hv, rfl⟩

theorem takeRunes_length (h : takeRunes n xs = some (v, r)) :
    n + r.length ≤ xs.length := by
  induction n generalizing xs v with
  | zero =>
    simp only [takeRunes, Option.some.injEq, Prod.mk.injEq] at h
    rw [h.2, Nat.zero_add]
  | succ n ih =>
    obtain ⟨c, xs', v', hd, hv, -⟩ := takeRunes_succ.mp h
    have h1 := ih hv
    have h2 := (decodeRune_suffix hd).2
    omega

/-! Valid strings. -/

/-- The UTF-8 of a text. -/
def encodeText (t : List Char) : Bytes := t.flatMap fun c => encodeRune c.toNat

/-- The string is the UTF-8 of a text. -/
def Valid (bs : Bytes) : Prop := ∃ t, bs = encodeText t

@[simp] theorem encodeText_nil : encodeText [] = [] := rfl

@[simp] theorem encodeText_cons (c : Char) (t : List Char) : encodeText (c :: t) = encodeRune c.toNat ++ encodeText t := rfl

theorem encodeText_append (t t' : List Char) : encodeText (t ++ t') = encodeText t ++ encodeText t' := List.flatMap_append

theorem toNat_ofNat_lt (h : n < 256) : (UInt8.ofNat n).toNat = n := by
  rw [UInt8.toNat_ofNat', Nat.mod_eq_of_lt h]

theorem tails_cons {k n acc : ℕ} (r : Bytes) (hlo : lo.toNat ≤ 0x80 + n) (hhi : 0x80 + n ≤ hi.toNat) (hn : n < 64) :
    tails (k + 1) lo hi acc (UInt8.ofNat (0x80 + n) :: r) = tails k 0x80 0xBF (acc * 64 + n) r := by
  have hb : (UInt8.ofNat (0x80 + n)).toNat = 0x80 + n := toNat_ofNat_lt (by omega)
  have hrange : lo ≤ UInt8.ofNat (0x80 + n) ∧ UInt8.ofNat (0x80 + n) ≤ hi := by
    rw [UInt8.le_iff_toNat_le, UInt8.le_iff_toNat_le, hb]
    exact ⟨hlo, hhi⟩
  rw [tails, if_pos hrange, hb, show (0x80 + n) % 64 = n by omega]

theorem tails_follow {k n acc : ℕ} (r : Bytes) (hn : n < 64) :
    tails (k + 1) 0x80 0xBF acc (UInt8.ofNat (0x80 + n) :: r) = tails k 0x80 0xBF (acc * 64 + n) r := by
  refine tails_cons r ?_ ?_ hn
  · change 0x80 ≤ 0x80 + n
    omega
  · change 0x80 + n ≤ 0xBF
    omega

theorem decodeRune_lead {k acc c : ℕ} {rest r : Bytes} (hl : lead b = some (k, lo, hi, acc))
    (ht : tails k lo hi acc rest = some (c, r)) : decodeRune (b :: rest) = some (c, r) := by
  have hb : ¬ b < 0x80 := by
    intro hlt
    have hnone : lead b = none := by
      rw [lead, if_pos]
      rw [UInt8.lt_iff_toNat_lt] at hlt ⊢
      exact hlt.trans (by decide)
    rw [hnone] at hl
    cases hl
  simp only [decodeRune, if_neg hb, hl, ht, Option.getD_some]

theorem lead_two (h1 : 2 ≤ n) (h2 : n < 32) : lead (UInt8.ofNat (0xC0 + n)) = some (1, 0x80, 0xBF, n) := by
  interval_cases n <;> rfl

theorem lead_three (h2 : n < 16) :
    lead (UInt8.ofNat (0xE0 + n)) = some (2, if n = 0 then 0xA0 else 0x80, if n = 13 then 0x9F else 0xBF, n) := by
  interval_cases n <;> rfl

theorem lead_four (h2 : n < 5) :
    lead (UInt8.ofNat (0xF0 + n)) = some (3, if n = 0 then 0x90 else 0x80, if n = 4 then 0x8F else 0xBF, n) := by
  interval_cases n <;> rfl

theorem decodeRune_encodeRune (c : Char) (r : Bytes) : decodeRune (encodeRune c.toNat ++ r) = some (c.toNat, r) := by
  have hc : c.toNat < 0xD800 ∨ 0xDFFF < c.toNat ∧ c.toNat < 0x110000 := c.valid
  generalize c.toNat = n at hc
  unfold encodeRune
  split_ifs with h1 h2 h3 h4
  · have hb : (UInt8.ofNat n).toNat = n := toNat_ofNat_lt (by omega)
    have hlt : UInt8.ofNat n < 0x80 := by
      rw [UInt8.lt_iff_toNat_lt, hb]
      exact h1
    simp only [List.cons_append, List.nil_append, decodeRune, if_pos hlt, hb]
  · refine decodeRune_lead (lead_two (by omega) (by omega)) ?_
    change tails (0 + 1) 0x80 0xBF (n / 64) (UInt8.ofNat (0x80 + n % 64) :: r) = _
    rw [tails_follow r (by omega), tails, show n / 64 * 64 + n % 64 = n by omega]
  · omega
  · refine decodeRune_lead (lead_three (by omega)) ?_
    change tails (1 + 1) _ _ (n / 4096) (UInt8.ofNat (0x80 + n / 64 % 64) :: UInt8.ofNat (0x80 + n % 64) :: r) = _
    rw [tails_cons _ ?_ ?_ (by omega), tails_follow r (by omega), tails,
      show (n / 4096 * 64 + n / 64 % 64) * 64 + n % 64 = n by omega]
    · split_ifs
      · change 0xA0 ≤ _
        omega
      · exact Nat.le_add_right _ _
    · split_ifs
      · change _ ≤ 0x9F
        omega
      · change _ ≤ 0xBF
        omega
  · refine decodeRune_lead (lead_four (by omega)) ?_
    change tails (2 + 1) _ _ (n / 262144) (UInt8.ofNat (0x80 + n / 4096 % 64) :: UInt8.ofNat (0x80 + n / 64 % 64) ::
      UInt8.ofNat (0x80 + n % 64) :: r) = _
    rw [tails_cons _ ?_ ?_ (by omega), tails_follow _ (by omega), tails_follow r (by omega), tails,
      show ((n / 262144 * 64 + n / 4096 % 64) * 64 + n / 64 % 64) * 64 + n % 64 = n by omega]
    · split_ifs
      · change 0x90 ≤ _
        omega
      · exact Nat.le_add_right _ _
    · split_ifs
      · change _ ≤ 0x8F
        omega
      · change _ ≤ 0xBF
        omega

theorem decodeRune_encodeText (c : Char) (t : List Char) : decodeRune (encodeText (c :: t)) = some (c.toNat, encodeText t) :=
  decodeRune_encodeRune c (encodeText t)

variable (t : List Char)

theorem takeRunes_encodeText (r : Bytes) :
    takeRunes t.length (encodeText t ++ r) = some (t.map Char.toNat, r) := by
  induction t with
  | nil => rfl
  | cons c t ih =>
    refine takeRunes_succ.mpr ⟨c.toNat, encodeText t ++ r, t.map Char.toNat, ?_, ih, rfl⟩
    rw [encodeText_cons, List.append_assoc]
    exact decodeRune_encodeRune c _

theorem takeRunes_valid {t : List Char} {r : Bytes} (h : takeRunes n (encodeText t) = some (v, r)) :
    ∃ t₁ t₂, t = t₁ ++ t₂ ∧ t₁.length = n ∧ v = t₁.map Char.toNat ∧ r = encodeText t₂ := by
  induction n generalizing t v with
  | zero =>
    simp only [takeRunes, Option.some.injEq, Prod.mk.injEq] at h
    exact ⟨[], t, rfl, rfl, h.1.symm, h.2.symm⟩
  | succ n ih =>
    obtain ⟨c, xs, v', hd, hv, rfl⟩ := takeRunes_succ.mp h
    cases t with
    | nil => simp [decodeRune] at hd
    | cons c' t =>
      rw [decodeRune_encodeText, Option.some.injEq, Prod.mk.injEq] at hd
      obtain ⟨rfl, rfl⟩ := hd
      obtain ⟨t₁, t₂, rfl, rfl, rfl, rfl⟩ := ih hv
      exact ⟨c' :: t₁, t₂, rfl, rfl, rfl, rfl⟩

theorem flatMap_encodeRune : (t.map Char.toNat).flatMap encodeRune = encodeText t := by
  rw [List.flatMap_map]
  rfl

theorem textFrom_encodeText (h : t.length ≤ k) : textFrom k (encodeText t) = t := by
  induction k generalizing t with
  | zero => rw [List.eq_nil_of_length_eq_zero (Nat.le_zero.mp h)]; rfl
  | succ k ih =>
    cases t with
    | nil => rfl
    | cons c t =>
      simp only [textFrom, decodeRune_encodeText, Char.ofNat_toNat]
      rw [ih t (by simpa using h)]

theorem length_le_encodeText : t.length ≤ (encodeText t).length := by
  have h := takeRunes_length (takeRunes_encodeText t [])
  simpa using h

theorem text_encodeText : text (encodeText t) = t := textFrom_encodeText t (length_le_encodeText t)

theorem mem_encodeRune_lt {c : ℕ} (h : b ∈ encodeRune c) (hb : b < 0x80) : c = b.toNat := by
  unfold encodeRune at h
  rw [UInt8.lt_iff_toNat_lt] at hb
  have h80 : (0x80 : UInt8).toNat = 128 := rfl
  split_ifs at h
  · rw [List.mem_singleton.1 h, UInt8.toNat_ofNat']
    omega
  all_goals
    simp only [List.mem_cons, List.not_mem_nil, or_false, ← UInt8.toNat_inj, UInt8.toNat_ofNat', UInt8.toNat_ofNat] at h
    omega

theorem valid_cut {t : List Char} {xs ys : Bytes} (hb : b < 0x80) (h : encodeText t = xs ++ b :: ys) :
    ∃ t₁ t₂, xs = encodeText t₁ ∧ ys = encodeText t₂ := by
  induction t generalizing xs with
  | nil => simp at h
  | cons c t ih =>
    rw [encodeText_cons] at h
    rcases List.append_eq_append_iff.1 h with ⟨zs, rfl, hz⟩ | ⟨zs, hx, hz⟩
    · obtain ⟨t₁, t₂, rfl, rfl⟩ := ih hz
      exact ⟨c :: t₁, t₂, rfl, rfl⟩
    · cases zs with
      | nil =>
        rw [List.nil_append] at hz
        rw [List.append_nil] at hx
        have hrest : encodeText t = [] ++ b :: ys := hz.symm
        obtain ⟨t₁, t₂, -, rfl⟩ := ih hrest
        exact ⟨[c], t₂, by rw [← hx]; simp, rfl⟩
      | cons b' zs =>
        obtain ⟨rfl, rfl⟩ := List.cons.inj hz
        have hone := mem_encodeRune_lt (c := c.toNat) (by rw [hx]; simp) hb
        have hc : encodeRune c.toNat = [b] := by
          rw [encodeRune, if_pos (by rw [hone]; exact hb), hone, UInt8.ofNat_toNat]
        rw [hc] at hx
        cases xs with
        | nil =>
          rw [List.nil_append] at hx
          obtain rfl := (List.cons.inj hx).2
          exact ⟨[], t, rfl, rfl⟩
        | cons x xs => simp at hx

theorem mem_decimal {n : ℤ} (h : b ∈ decimal n) : b = 45 ∨ 48 ≤ b ∧ b ≤ 57 := by
  unfold decimal at h
  rcases List.mem_append.mp h with h | h
  · split_ifs at h
    · exact Or.inl (List.mem_singleton.mp h)
    · simp at h
  · right
    split_ifs at h
    · rw [List.mem_singleton.mp h]
      decide
    · obtain ⟨d, hd, rfl⟩ := List.mem_map.mp h
      have hlt : d < 10 := Nat.digits_lt_base (by norm_num) (List.mem_reverse.mp hd)
      interval_cases d <;> decide

end Lib.Utf8
