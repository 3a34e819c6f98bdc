import CaptivoAccess.Sanity.GuacProto
import CaptivoAccess.Spec.Replay

/-! Texts that are stored as lines, and an engine that reads them. -/

namespace Captivo.Replay

open Lib.Utf8 Lib.JsonText Lib.JsonRead Captivo.Guac

/-! Lines. -/

/-- Texts as lines. -/
def lined (ts : List Text) : Text := ts.flatMap (· ++ ['\n'])

theorem encodeText_lined (ts : List Text) : encodeText (lined ts) = ts.flatMap fun t => encodeText t ++ [10] := by
  induction ts with
  | nil => rfl
  | cons t ts ih =>
    rw [lined, List.flatMap_cons, List.flatMap_cons, encodeText_append, encodeText_append, ← lined, ih]
    rfl

theorem splitOn_lined {ts : List Text} (h : ∀ t ∈ ts, '\n' ∉ t) : (lined ts).splitOn '\n' = ts ++ [[]] := by
  induction ts with
  | nil => rfl
  | cons t ts ih =>
    have hrest := ih fun u hu => h u (List.mem_cons_of_mem t hu)
    rw [lined, List.flatMap_cons, List.append_assoc, List.singleton_append, List.splitOn_append_cons_self,
      List.splitOn_eq_singleton (h t List.mem_cons_self), ← lined, hrest]
    rfl

/-- The text goes from a bracket to a bracket. -/
def Bracketed (t : Text) : Prop := ∃ inner, t = '[' :: (inner ++ [']'])

theorem Bracketed.trim {t : Text} (h : Bracketed t) : RecFetch.trim t = t := by
  obtain ⟨inner, rfl⟩ := h
  have hopen : ¬ (RecFetch.isSpace '[' = true) := by decide
  have hclose : ¬ (RecFetch.isSpace ']' = true) := by decide
  rw [RecFetch.trim, List.dropWhile_cons_of_neg hopen, List.reverse_cons, List.reverse_append, List.reverse_singleton,
    List.singleton_append, List.cons_append, List.dropWhile_cons_of_neg hclose]
  simp

theorem parsedLines_lined {ts : List Text} (hline : ∀ t ∈ ts, '\n' ∉ t) (hbrackets : ∀ t ∈ ts, Bracketed t) :
    parsedLines (lined ts) = ts.map parse := by
  have htrim : ts.map RecFetch.trim = ts := by
    rw [List.map_congr_left fun t ht => (hbrackets t ht).trim, List.map_id']
  have hparsed : ts.filterMap (fun line => if line = [] then none else some (parse line)) = ts.map parse := by
    rw [← List.filterMap_eq_map']
    refine List.filterMap_congr fun t ht => if_neg ?_
    obtain ⟨inner, rfl⟩ := hbrackets t ht
    exact List.cons_ne_nil _ _
  rw [parsedLines, splitOn_lined hline, List.map_append, htrim, List.filterMap_append, hparsed]
  exact List.append_nil _

/-! An engine. -/

def digitsValue (ds : Units) : ℕ := ds.foldl (fun m d => m * 10 + (d.toNat - 48)) 0

/-- The integer that is written with such units. -/
def integer (t : Units) : ℤ := if t.head? = some 45 then -digitsValue t.tail else digitsValue t

theorem foldl_digits {ds : List ℕ} (h : ∀ d ∈ ds, d < 10) (m : ℕ) :
    (ds.map fun d => (UInt8.ofNat (48 + d)).toUInt16).foldl (fun m d => m * 10 + (d.toNat - 48)) m =
      ds.foldl (fun m d => m * 10 + d) m := by
  induction ds generalizing m with
  | nil => rfl
  | cons d ds ih =>
    have hd : d < 10 := h d List.mem_cons_self
    have hunit : (UInt8.ofNat (48 + d)).toUInt16.toNat - 48 = d := by
      rw [UInt8.toNat_toUInt16, toNat_ofNat_lt (by omega)]
      omega
    rw [List.map_cons, List.foldl_cons, List.foldl_cons, hunit, ih fun e he => h e (List.mem_cons_of_mem d he)]

theorem digitsValue_decimal (n : ℕ) :
    digitsValue ((decimal n).map (·.toUInt16)) = n ∧ ((decimal n).map (·.toUInt16)).head? ≠ some 45 := by
  obtain ⟨ds, hne, hds, hval, hdec⟩ := decimal_natCast n
  have hmap : (decimal n).map (·.toUInt16) = ds.map fun d => (UInt8.ofNat (48 + d)).toUInt16 := by
    rw [hdec, List.map_map]
    rfl
  rw [hmap]
  refine ⟨(foldl_digits hds 0).trans hval, ?_⟩
  obtain ⟨d, ds', rfl⟩ := List.exists_cons_of_ne_nil hne
  have hd : d < 10 := hds d List.mem_cons_self
  intro h
  have hunit := congrArg UInt16.toNat (Option.some.inj h)
  rw [UInt8.toNat_toUInt16, toNat_ofNat_lt (by omega)] at hunit
  exact absurd hunit (by show ¬ 48 + d = 45; omega)

theorem decimal_neg {m : ℕ} (h : 0 < m) : decimal (-(m : ℤ)) = 45 :: decimal m := by
  have hneg : -(m : ℤ) < 0 := by omega
  have hpos : ¬ (m : ℤ) < 0 := by omega
  have hne : ¬ -(m : ℤ) = 0 := by omega
  have hne' : ¬ (m : ℤ) = 0 := by omega
  rw [decimal, decimal, if_pos hneg, if_neg hne, if_neg hpos, if_neg hne', Int.natAbs_neg]
  rfl

theorem integer_decimal (n : ℤ) : integer ((decimal n).map (·.toUInt16)) = n := by
  rcases Int.le_total 0 n with hle | hle
  · obtain ⟨m, rfl⟩ := Int.eq_ofNat_of_zero_le hle
    obtain ⟨hvalue, hhead⟩ := digitsValue_decimal m
    rw [integer, if_neg hhead, hvalue]
  · obtain ⟨m, hm⟩ := Int.eq_ofNat_of_zero_le (Int.neg_nonneg_of_nonpos hle)
    obtain rfl : n = -(m : ℤ) := by omega
    by_cases hzero : m = 0
    · subst hzero
      decide
    · rw [decimal_neg (Nat.pos_of_ne_zero hzero), integer, if_pos (by rfl), List.map_cons, List.tail_cons,
        (digitsValue_decimal m).1]

/-- An engine with 65536 arguments in a call, which reads bytes that are no UTF-8 as Go does and no numbers but integers. -/
def plainEngine : Engine where
  utf8 := text
  utf8_encodeText := text_encodeText
  maxArguments := 65536
  number t := integer t.text
  number_decimal n t ht _ := by rw [ht, integer_decimal]

end Captivo.Replay
