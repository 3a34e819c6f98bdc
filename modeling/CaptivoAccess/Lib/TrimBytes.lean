import CaptivoAccess.Lib.Utf8

/-! Trimming of byte strings, as Go's `strings.TrimSpace` does it: runes are decoded from the
front and from the back, and a byte that belongs to none is no space. -/

namespace Lib.TrimBytes

open Lib.Utf8

def isSpace (c : ℕ) : Bool :=
  (9 ≤ c && c ≤ 13) || (0x2000 ≤ c && c ≤ 0x200A) || c ∈ [0x20, 0x85, 0xA0, 0x1680, 0x2028, 0x2029, 0x202F, 0x205F, 0x3000]

/-- The byte can begin a rune. -/
def runeStart (b : UInt8) : Bool := b < 0x80 || 0xC0 ≤ b

/-- `utf8.DecodeLastRuneInString`: the last rune and what stands in front of it. -/
def decodeLastRune (bs : Bytes) : Option (ℕ × Bytes) :=
  match bs.reverse with
  | [] => none
  | b :: front =>
    if b < 0x80 then some (b.toNat, front.reverse)
    else
      -- back over at most three bytes to one that can begin a rune
      let size := min (((front.take 3).takeWhile fun b => !runeStart b).length + 2) bs.length
      match decodeRune (bs.drop (bs.length - size)) with
      | some (c, []) => some (c, bs.take (bs.length - size))
      | _ => some (runeError, front.reverse)

/-- Takes runes off as long as they are spaces; every rune has a byte. -/
def trimWith (next : Bytes → Option (ℕ × Bytes)) : ℕ → Bytes → Bytes
  | 0, bs => bs
  | n + 1, bs =>
    match next bs with
    | some (c, rest) => if isSpace c then trimWith next n rest else bs
    | none => bs

def trimSpace (bs : Bytes) : Bytes :=
  let bs := trimWith decodeRune bs.length bs
  trimWith decodeLastRune bs.length bs

/-! Printable ASCII without the blank. -/

def Graphic (b : UInt8) : Prop := 33 ≤ b ∧ b < 127

instance : DecidablePred Graphic := fun b => inferInstanceAs (Decidable (33 ≤ b ∧ b < 127))

theorem isSpace_of_graphic {b : UInt8} (h : Graphic b) : isSpace b.toNat = false := by
  have hlow : 33 ≤ b.toNat := h.1
  have hhigh : b.toNat < 127 := h.2
  simp only [isSpace, Bool.or_eq_false_iff, Bool.and_eq_false_iff, decide_eq_false_iff_not, List.mem_cons, List.not_mem_nil, or_false]
  omega

theorem Graphic.lt {b : UInt8} (h : Graphic b) : b < 0x80 := UInt8.lt_trans h.2 (by decide)

theorem decodeRune_ascii_cons {b : UInt8} (h : b < 0x80) (bs : Bytes) : decodeRune (b :: bs) = some (b.toNat, bs) := if_pos h

theorem decodeLastRune_concat {b : UInt8} (h : b < 0x80) (bs : Bytes) : decodeLastRune (bs ++ [b]) = some (b.toNat, bs) := by
  simp [decodeLastRune, h]

theorem trimWith_stop {next : Bytes → Option (ℕ × Bytes)} {bs rest : Bytes} {c : ℕ} (hnext : next bs = some (c, rest))
    (hc : isSpace c = false) (n : ℕ) : trimWith next n bs = bs := by
  cases n with
  | zero => rfl
  | succ n => simp [trimWith, hnext, hc]

theorem trimSpace_graphic {bs : Bytes} (hne : bs ≠ []) (h : ∀ b ∈ bs, Graphic b) : trimSpace bs = bs ∧ trimSpace (32 :: bs) = bs := by
  have hleft : ∀ n, trimWith decodeRune n bs = bs := by
    obtain ⟨b, rest, rfl⟩ := List.exists_cons_of_ne_nil hne
    have hb := h b List.mem_cons_self
    exact trimWith_stop (decodeRune_ascii_cons hb.lt rest) (isSpace_of_graphic hb)
  have hright : ∀ n, trimWith decodeLastRune n bs = bs := by
    obtain ⟨front, b, rfl⟩ := List.eq_nil_or_concat bs |>.resolve_left hne
    rw [List.concat_eq_append] at h ⊢
    have hb := h b (by simp)
    exact trimWith_stop (decodeLastRune_concat hb.lt front) (isSpace_of_graphic hb)
  have hblank : trimWith decodeRune (32 :: bs).length (32 :: bs) = bs := by
    rw [List.length_cons, trimWith, decodeRune_ascii_cons (by decide)]
    exact (if_pos (by decide)).trans (hleft _)
  constructor
  · rw [trimSpace, hleft]
    exact hright _
  · rw [trimSpace, hblank]
    exact hright _

end Lib.TrimBytes
