import CaptivoAccess.Lib.Parse
import CaptivoAccess.Spec.GuacProto

/-! `parseInstruction` as a reader: it uses up input, and an instruction that was
read stays the same when more bytes follow. The second fact needs that a value is
ended by an ASCII separator, since a rune cut off by the end of the input is
decoded differently once the rest of it arrives. -/

namespace Captivo.Guac

open Lib.Utf8 Lib.Parse

/-! Numbers. -/

theorem le_foldl_digits (ds : List ℕ) (acc : ℕ) : acc ≤ ds.foldl (fun n d => n * 10 + d) acc := by
  induction ds generalizing acc with
  | nil => exact le_rfl
  | cons d ds ih => exact (by omega : acc ≤ acc * 10 + d).trans (ih _)

theorem parseUint_digits {ds : List ℕ} (hds : ∀ d ∈ ds, d < 10) {acc : ℕ} (hacc : acc < 2 ^ 64) :
    parseUint acc (ds.map fun d => UInt8.ofNat (48 + d)) = some (min (ds.foldl (fun n d => n * 10 + d) acc) (2 ^ 64 - 1)) := by
  induction ds generalizing acc with
  | nil => rw [List.map_nil, List.foldl_nil, min_eq_left (by omega), parseUint]
  | cons d ds ih =>
    have hd : d < 10 := hds d List.mem_cons_self
    have hb : (UInt8.ofNat (48 + d)).toNat = 48 + d := toNat_ofNat_lt (by omega)
    have hdigit : (48 : UInt8) ≤ UInt8.ofNat (48 + d) ∧ UInt8.ofNat (48 + d) ≤ 57 := by
      rw [UInt8.le_iff_toNat_le, UInt8.le_iff_toNat_le, hb]
      exact ⟨Nat.le_add_right _ _, (by omega : 48 + d ≤ 57)⟩
    rw [List.foldl_cons, List.map_cons, parseUint, if_pos hdigit, hb]
    simp only [Nat.add_sub_cancel_left]
    split_ifs with hlarge
    · have hgrow := le_foldl_digits ds (acc * 10 + d)
      rw [min_eq_right (by omega)]
    · exact ih (fun e he => hds e (List.mem_cons_of_mem _ he)) (by omega)

theorem decimal_natCast (n : ℕ) :
    ∃ ds : List ℕ, ds ≠ [] ∧ (∀ d ∈ ds, d < 10) ∧ ds.foldl (fun m d => m * 10 + d) 0 = n ∧
      decimal n = ds.map fun d => UInt8.ofNat (48 + d) := by
  have hneg : ¬ (n : ℤ) < 0 := by omega
  by_cases hn : n = 0
  · subst hn
    exact ⟨[0], by simp, by simp, rfl, rfl⟩
  · refine ⟨(Nat.digits 10 n).reverse, by simpa [Nat.digits_eq_nil_iff_eq_zero] using hn, fun d hd => ?_, ?_, ?_⟩
    · exact Nat.digits_lt_base (by norm_num) (List.mem_reverse.mp hd)
    · have hfold : (fun (d m : ℕ) => m * 10 + d) = fun d m => d + 10 * m := by
        funext d m
        ring
      have hdigits := Nat.ofDigits_digits 10 n
      rw [Nat.ofDigits_eq_foldr] at hdigits
      rw [List.foldl_reverse, hfold]
      exact hdigits
    · have hne : ¬ (n : ℤ) = 0 := by omega
      rw [decimal, if_neg hneg, if_neg hne, List.nil_append, Int.natAbs_natCast]

variable {n : ℕ}

theorem atoi_of_parseUint {b : UInt8} {bs : Bytes} (h45 : b ≠ 45) (h43 : b ≠ 43) (hparse : parseUint 0 (b :: bs) = some n) :
    atoi (b :: bs) = if n < 2 ^ 63 then ((n : ℤ), true) else (2 ^ 63 - 1, false) := by
  simp [atoi, h45, h43, hparse]

theorem atoi_digits {ds : List ℕ} (hne : ds ≠ []) (hds : ∀ d ∈ ds, d < 10) :
    atoi (ds.map fun d => UInt8.ofNat (48 + d)) =
      if ds.foldl (fun n d => n * 10 + d) 0 < 2 ^ 63 then (((ds.foldl (fun n d => n * 10 + d) 0 : ℕ) : ℤ), true) else (2 ^ 63 - 1, false) := by
  have hzero : 0 < 2 ^ 64 := by omega
  have hparse := parseUint_digits hds hzero
  generalize ds.foldl (fun n d => n * 10 + d) 0 = n at hparse ⊢
  obtain ⟨d, ds, rfl⟩ := List.exists_cons_of_ne_nil hne
  have hd : d < 10 := hds d List.mem_cons_self
  have hb : (UInt8.ofNat (48 + d)).toNat = 48 + d := toNat_ofNat_lt (by omega)
  have h45 : UInt8.ofNat (48 + d) ≠ 45 := fun he => by
    rw [he] at hb
    exact absurd hb (by omega : (45 : ℕ) ≠ 48 + d)
  have h43 : UInt8.ofNat (48 + d) ≠ 43 := fun he => by
    rw [he] at hb
    exact absurd hb (by omega : (43 : ℕ) ≠ 48 + d)
  rw [List.map_cons] at hparse ⊢
  rw [atoi_of_parseUint h45 h43 hparse]
  by_cases hn : n < 2 ^ 63
  · rw [if_pos hn, if_pos (by omega), min_eq_left (by omega)]
  · rw [if_neg hn, if_neg (by omega)]

theorem atoi_decimal (h : n < 2 ^ 63) : atoi (decimal n) = ((n : ℤ), true) := by
  obtain ⟨ds, hne, hds, hval, hdec⟩ := decimal_natCast n
  rw [hdec, atoi_digits hne hds, hval, if_pos h]

theorem dot_notMem_decimal (n : ℕ) : 46 ∉ decimal n := by
  intro h
  rcases mem_decimal h with h | ⟨h, -⟩
  · exact absurd h (by decide)
  · exact absurd h (by decide)

/-! Elements. -/

theorem readDot_eq {bs l r : Bytes} (h : readDot bs = some (l, r)) : bs = l ++ 46 :: r ∧ 46 ∉ l := by
  induction bs generalizing l with
  | nil => simp [readDot] at h
  | cons b bs ih =>
    simp only [readDot] at h
    split_ifs at h with hb
    · simp only [Option.some.injEq, Prod.mk.injEq] at h
      obtain ⟨rfl, rfl⟩ := h
      simp [hb]
    · obtain ⟨⟨l', r'⟩, hlr, he⟩ := Option.map_eq_some_iff.mp h
      simp only [Prod.mk.injEq] at he
      obtain ⟨rfl, rfl⟩ := he
      obtain ⟨h1, h2⟩ := ih hlr
      refine ⟨by rw [h1]; rfl, ?_⟩
      rw [List.mem_cons]
      rintro (h | h)
      · exact hb h.symm
      · exact h2 h

theorem readDot_of_notMem {l : Bytes} (r : Bytes) (h : 46 ∉ l) : readDot (l ++ 46 :: r) = some (l, r) := by
  induction l with
  | nil => simp [readDot]
  | cons b l ih =>
    have hb : b ≠ 46 := fun he => h (by simp [he])
    have hl := ih fun hm => h (List.mem_cons_of_mem _ hm)
    simp only [List.cons_append, readDot, hb, if_false, hl, Option.map_some]

theorem readLength_ok {bs rest : Bytes} (h : readLength bs = .ok (n, rest)) :
    ∃ lenStr, readDot bs = some (lenStr, rest) ∧ (atoi lenStr).2 = true ∧ 0 ≤ (atoi lenStr).1 ∧
      (atoi lenStr).1.toNat = n := by
  unfold readLength at h
  split at h
  · cases h
  · rename_i lenStr r hd
    split_ifs at h with hc
    simp only [Except.ok.injEq, Prod.mk.injEq] at h
    obtain ⟨rfl, rfl⟩ := h
    rw [not_or, Bool.not_eq_false, not_lt] at hc
    exact ⟨lenStr, hd, hc.1, hc.2, rfl⟩

theorem readLength_of_dot {bs lenStr rest : Bytes} (hd : readDot bs = some (lenStr, rest))
    (h1 : (atoi lenStr).2 = true) (h2 : 0 ≤ (atoi lenStr).1) :
    readLength bs = .ok ((atoi lenStr).1.toNat, rest) := by
  have hc : ¬ ((atoi lenStr).2 = false ∨ (atoi lenStr).1 < 0) := by
    rw [not_or, Bool.not_eq_false, not_lt]
    exact ⟨h1, h2⟩
  simp only [readLength, hd, if_neg hc]

theorem readLength_iff {bs rest : Bytes} :
    readLength bs = .ok (n, rest) ↔
      ∃ lenStr, bs = lenStr ++ 46 :: rest ∧ 46 ∉ lenStr ∧ atoi lenStr = ((n : ℤ), true) := by
  constructor
  · intro h
    obtain ⟨lenStr, hd, h1, h2, rfl⟩ := readLength_ok h
    refine ⟨lenStr, (readDot_eq hd).1, (readDot_eq hd).2, ?_⟩
    rw [Int.toNat_of_nonneg h2, ← h1]
  · rintro ⟨lenStr, rfl, hm, ha⟩
    have h := readLength_of_dot (readDot_of_notMem rest hm) (by rw [ha]) (by rw [ha]; exact Int.natCast_nonneg n)
    rwa [ha, Int.toNat_natCast] at h

theorem readLength_shortens {bs rest : Bytes} (h : readLength bs = .ok (n, rest)) :
    rest.length < bs.length := by
  obtain ⟨lenStr, hd, -⟩ := readLength_ok h
  rw [(readDot_eq hd).1, List.length_append, List.length_cons]
  omega

theorem readLength_append {bs rest : Bytes} (ys : Bytes) (h : readLength bs = .ok (n, rest)) :
    readLength (bs ++ ys) = .ok (n, rest ++ ys) := by
  obtain ⟨lenStr, hd, h1, h2, rfl⟩ := readLength_ok h
  obtain ⟨rfl, hm⟩ := readDot_eq hd
  apply readLength_of_dot _ h1 h2
  rw [List.append_assoc, List.cons_append]
  exact readDot_of_notMem _ hm

theorem readValue_ok {rest val r : Bytes} {sep : ℕ} :
    readValue n rest = .ok (val, sep, r) ↔
      4 * n ≤ maxAlloc ∧ ∃ v r₀, takeRunes n rest = some (v, r₀) ∧ val = v.flatMap encodeRune ∧
        decodeRune r₀ = some (sep, r) := by
  unfold readValue
  constructor
  · intro h
    split_ifs at h with hn
    split at h
    · cases h
    · rename_i v r₀ hv
      split at h
      · cases h
      · rename_i s r' hs
        simp only [Except.ok.injEq, Prod.mk.injEq] at h
        obtain ⟨rfl, rfl, rfl⟩ := h
        exact ⟨not_lt.mp hn, v, r₀, hv, rfl, hs⟩
  · rintro ⟨hn, v, r₀, hv, rfl, hs⟩
    simp only [not_lt.mpr hn, if_false, hv, hs]

theorem readValue_shortens {rest val r : Bytes} {sep : ℕ} (h : readValue n rest = .ok (val, sep, r)) :
    r.length < rest.length ∧ n ≤ rest.length := by
  obtain ⟨-, v, r₀, hv, -, hs⟩ := readValue_ok.mp h
  have h1 := takeRunes_length hv
  have h2 := (decodeRune_suffix hs).2
  omega

/-- The separator is ASCII, so the value in front of it is decoded up to a barrier. -/
theorem readValue_append {rest val r : Bytes} {sep : ℕ} (ys : Bytes) (hsep : sep < 0x80)
    (h : readValue n rest = .ok (val, sep, r)) : readValue n (rest ++ ys) = .ok (val, sep, r ++ ys) := by
  obtain ⟨hn, v, r₀, hv, he, hs⟩ := readValue_ok.mp h
  obtain ⟨b, rfl, hb, -⟩ := decodeRune_ascii hsep hs
  have hbar : Barrier (b :: r) ys := Or.inl ⟨b, List.mem_cons_self, hb⟩
  exact readValue_ok.mpr ⟨hn, v, _, takeRunes_append hbar hv, he, decodeRune_append hbar hs⟩

variable {bs r : Bytes}

theorem parseElems_ok {k : ℕ} {es : List Bytes} (h : (parseElems (k + 1) bs).2 = .ok (es, r)) :
    ∃ n rest val sep rest', readLength bs = .ok (n, rest) ∧ readValue n rest = .ok (val, sep, rest') ∧
      ((sep = 59 ∧ es = [val] ∧ r = rest') ∨
        (sep = 44 ∧ ∃ es', (parseElems k rest').2 = .ok (es', r) ∧ es = val :: es')) := by
  simp only [parseElems] at h
  split at h
  · cases h
  · rename_i n rest hl
    split at h
    · cases h
    · rename_i val sep rest' hv
      refine ⟨n, rest, val, sep, rest', hl, hv, ?_⟩
      split_ifs at h with h1 h2
      · simp only [Except.ok.injEq, Prod.mk.injEq] at h
        exact Or.inl ⟨h1, h.1.symm, h.2.symm⟩
      · right
        refine ⟨h2, ?_⟩
        cases hp : (parseElems k rest').2 with
        | error e => simp [hp, Except.map] at h
        | ok er =>
          simp only [hp, Except.map, Except.ok.injEq, Prod.mk.injEq] at h
          exact ⟨er.1, by rw [← h.2], h.1.symm⟩

theorem parseElems_last {k n : ℕ} {bs rest val rest' : Bytes} (hl : readLength bs = .ok (n, rest))
    (hv : readValue n rest = .ok (val, 59, rest')) : (parseElems (k + 1) bs).2 = .ok ([val], rest') := by
  simp only [parseElems, hl, hv, if_true]

theorem parseElems_more {k n : ℕ} {bs rest val rest' : Bytes} (hl : readLength bs = .ok (n, rest))
    (hv : readValue n rest = .ok (val, 44, rest')) :
    (parseElems (k + 1) bs).2 = (parseElems k rest').2.map fun er => (val :: er.1, er.2) := by
  simp only [parseElems, hl, hv, Nat.reduceEqDiff, if_false, if_true]

theorem parseElems_append {k m : ℕ} {es : List Bytes} (ys : Bytes) (hk : k ≤ m)
    (h : (parseElems k bs).2 = .ok (es, r)) : (parseElems m (bs ++ ys)).2 = .ok (es, r ++ ys) := by
  induction k generalizing m bs es with
  | zero => simp [parseElems] at h
  | succ k ih =>
    obtain ⟨m, rfl⟩ : ∃ m', m = m' + 1 := ⟨m - 1, by omega⟩
    obtain ⟨n, rest, val, sep, rest', hl, hv, hcase⟩ := parseElems_ok h
    rcases hcase with ⟨rfl, rfl, rfl⟩ | ⟨rfl, es', he, rfl⟩
    · exact parseElems_last (readLength_append ys hl) (readValue_append ys (by norm_num) hv)
    · rw [parseElems_more (readLength_append ys hl) (readValue_append ys (by norm_num) hv),
        ih (by omega) he]
      rfl

theorem parseElems_shortens {k : ℕ} {es : List Bytes} (h : (parseElems k bs).2 = .ok (es, r)) :
    r.length < bs.length ∧ es ≠ [] := by
  induction k generalizing bs es with
  | zero => simp [parseElems] at h
  | succ k ih =>
    obtain ⟨n, rest, val, sep, rest', hl, hv, hcase⟩ := parseElems_ok h
    have h1 := readLength_shortens hl
    have h2 := (readValue_shortens hv).1
    rcases hcase with ⟨-, rfl, rfl⟩ | ⟨-, es', he, rfl⟩
    · exact ⟨by omega, by simp⟩
    · have h3 := (ih he).1
      exact ⟨by omega, by simp⟩

theorem parseInstruction_ok {i : Instruction} :
    (parseInstruction bs).2 = .ok (i, r) ↔ (parseElems bs.length bs).2 = .ok (i.1 :: i.2, r) := by
  unfold parseInstruction
  constructor
  · intro h
    split at h
    · cases h
    · cases h
    · rename_i op args r' he
      simp only [Except.ok.injEq, Prod.mk.injEq] at h
      obtain ⟨rfl, rfl⟩ := h
      exact he
  · intro h
    simp only [h]

/-- The instruction reader of the protocol. -/
def instruction : Reader UInt8 Instruction where
  read bs := (parseInstruction bs).2.toOption
  shortens := by
    intro bs i r h
    have hok : (parseInstruction bs).2 = .ok (i, r) := by
      cases hp : (parseInstruction bs).2 with
      | error e => simp [hp, Except.toOption] at h
      | ok ir =>
        rw [hp] at h
        exact congrArg Except.ok (Option.some.inj h)
    exact (parseElems_shortens (parseInstruction_ok.mp hok)).1

theorem instruction_read {i : Instruction} :
    instruction.read bs = some (i, r) ↔ (parseInstruction bs).2 = .ok (i, r) := by
  constructor
  · intro h
    cases hp : (parseInstruction bs).2 with
    | error e => simp [instruction, hp, Except.toOption] at h
    | ok ir =>
      simp only [instruction, hp, Except.toOption, Option.some.injEq] at h
      rw [h]
  · intro h
    simp [instruction, h, Except.toOption]

theorem instruction_stable : instruction.Stable := by
  intro bs i r ys h
  rw [instruction_read, parseInstruction_ok] at h ⊢
  exact parseElems_append ys (by simp) h

end Captivo.Guac
