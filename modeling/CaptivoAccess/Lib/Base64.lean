import CaptivoAccess.Lib.Utf8

/-! Base64 with padding, as it is written and as a text is read back: quanta of four
digits, the last of which may end in one or two pads. How many bytes come out can be told
from the length of the text and the pads it ends in. -/

namespace Lib.Base64

open Lib.Utf8

def pad : UInt8 := 61

/-- The value of a character of the standard alphabet. -/
def digit (b : UInt8) : Option ℕ :=
  if 65 ≤ b ∧ b ≤ 90 then some (b.toNat - 65)
  else if 97 ≤ b ∧ b ≤ 122 then some (b.toNat - 71)
  else if 48 ≤ b ∧ b ≤ 57 then some (b.toNat + 4)
  else if b = 43 then some 62
  else if b = 47 then some 63
  else none

/-- The three bytes that four digits stand for. -/
def quantum (a b c d : ℕ) : Bytes := [UInt8.ofNat (a * 4 + b / 16), UInt8.ofNat (b * 16 + c / 4), UInt8.ofNat (c * 64 + d)]

/-- The bytes of a text that is valid. Bits of the last digit that no byte needs are not looked at. -/
def decode : Bytes → Option Bytes
  | [] => some []
  | a :: b :: c :: d :: rest =>
    if d = pad ∧ rest = [] then do
      let x ← digit a
      let y ← digit b
      if c = pad then return (quantum x y 0 0).take 1
      let z ← digit c
      return (quantum x y z 0).take 2
    else do
      let x ← digit a
      let y ← digit b
      let z ← digit c
      let w ← digit d
      let tail ← decode rest
      return quantum x y z w ++ tail
  | _ => none

/-- The character of a value. -/
def digitOf (n : ℕ) : UInt8 :=
  if n < 26 then UInt8.ofNat (65 + n)
  else if n < 52 then UInt8.ofNat (71 + n)
  else if n < 62 then UInt8.ofNat (n - 4)
  else if n = 62 then 43
  else 47

/-- The text of bytes. -/
def encode : Bytes → Bytes
  | [] => []
  | [a] => [digitOf (a.toNat / 4), digitOf (a.toNat % 4 * 16), pad, pad]
  | [a, b] => [digitOf (a.toNat / 4), digitOf (a.toNat % 4 * 16 + b.toNat / 16), digitOf (b.toNat % 16 * 4), pad]
  | a :: b :: c :: rest =>
    digitOf (a.toNat / 4) :: digitOf (a.toNat % 4 * 16 + b.toNat / 16) :: digitOf (b.toNat % 16 * 4 + c.toNat / 64) ::
      digitOf (c.toNat % 64) :: encode rest

theorem encode_length (bs : Bytes) : (encode bs).length = (bs.length + 2) / 3 * 4 := by
  induction bs using encode.induct with
  | case1 => rfl
  | case2 a => simp [encode]
  | case3 a b => simp [encode]
  | case4 a b c rest ih =>
    simp only [encode, List.length_cons, ih]
    omega

/-- How many pads a text ends in, two at most. -/
def padding (s : Bytes) : ℕ :=
  if s.getLast? = some pad then (if s.dropLast.getLast? = some pad then 2 else 1) else 0

theorem padding_append (xs : Bytes) {s : Bytes} (h : 2 ≤ s.length) : padding (xs ++ s) = padding s := by
  have hne : s ≠ [] := by
    rintro rfl
    exact absurd h (by decide)
  have hdrop : s.dropLast ≠ [] := by
    intro he
    have hlen := congrArg List.length he
    rw [List.length_dropLast, List.length_nil] at hlen
    omega
  unfold padding
  rw [List.dropLast_append_of_ne_nil hne, List.getLast?_append_of_ne_nil _ hne, List.getLast?_append_of_ne_nil _ hdrop]

theorem padding_le (s : Bytes) : padding s ≤ 2 := by
  unfold padding
  split_ifs <;> omega

/-- A valid text is made of whole quanta, and each of its pads stands for a byte less. -/
theorem decode_length {s bs : Bytes} (h : decode s = some bs) :
    4 * (s.length / 4) = s.length ∧ bs.length + padding s = s.length / 4 * 3 := by
  induction s using decode.induct generalizing bs with
  | case1 =>
    cases h
    decide
  | case2 a b c d rest hlast =>
    obtain ⟨rfl, rfl⟩ := hlast
    simp only [decode, and_self, if_true, Option.bind_eq_bind, Option.bind_eq_some_iff] at h
    obtain ⟨x, -, y, -, h⟩ := h
    by_cases hc : c = pad
    · subst hc
      cases h
      simp [padding, quantum]
    · rw [if_neg hc] at h
      obtain ⟨z, -, h⟩ := Option.bind_eq_some_iff.1 h
      cases h
      simp [padding, quantum, hc]
  | case3 a b c d rest hlast ih =>
    simp only [decode, if_neg hlast, Option.bind_eq_bind, Option.bind_eq_some_iff] at h
    obtain ⟨x, -, y, -, z, -, w, hd, tail, htail, h⟩ := h
    cases h
    obtain ⟨hmod, hlen⟩ := ih htail
    have hpadding : padding (a :: b :: c :: d :: rest) = padding rest := by
      cases rest with
      | nil =>
        have hne : d ≠ pad := fun he => hlast ⟨he, rfl⟩
        simp [padding, hne]
      | cons e rest =>
        refine padding_append [a, b, c, d] ?_
        simp only [List.length_cons] at hmod ⊢
        omega
    rw [hpadding]
    simp only [List.length_append, List.length_cons, quantum, List.length_nil]
    omega
  | case4 s h1 h2 =>
    simp [decode] at h

end Lib.Base64
