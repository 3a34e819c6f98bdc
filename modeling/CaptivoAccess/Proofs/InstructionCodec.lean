import CaptivoAccess.Sanity.GuacProto

/-! Writing instructions and the three ways of reading them. An instruction that was
written is parsed to what it was written from; on valid UTF-8 the raw reader and the
parser take the same bytes, and the opcode scan finds the opcode that was parsed. -/

namespace Captivo.Guac

open Lib.Utf8

/-! Writing and parsing. -/

/-- The runes of the string can be held in one slice. -/
def Allocates (e : Bytes) : Prop := 4 * (text e).length ≤ maxAlloc

theorem read_encodeElem {e : Bytes} (hvalid : Valid e) (hmem : Allocates e) (sep : UInt8) (hsep : sep < 0x80) (r : Bytes) :
    readLength (encodeElem e ++ sep :: r) = .ok ((text e).length, e ++ sep :: r) ∧
      readValue (text e).length (e ++ sep :: r) = .ok (e, sep.toNat, r) := by
  obtain ⟨t, rfl⟩ := hvalid
  rw [Allocates, text_encodeText] at hmem
  have hlen : t.length < 2 ^ 63 := by
    rw [maxAlloc] at hmem
    omega
  have hatoi := atoi_decimal hlen
  rw [encodeElem, text_encodeText]
  constructor
  · have hdot : readDot ((decimal t.length ++ 46 :: encodeText t) ++ sep :: r) = some (decimal t.length, encodeText t ++ sep :: r) := by
      rw [List.append_assoc, List.cons_append]
      exact readDot_of_notMem _ (dot_notMem_decimal _)
    have h := readLength_of_dot hdot (by rw [hatoi]) (by rw [hatoi]; exact Int.natCast_nonneg _)
    rwa [hatoi, Int.toNat_natCast] at h
  · refine readValue_ok.mpr ⟨hmem, _, _, takeRunes_encodeText t _, (flatMap_encodeRune t).symm, ?_⟩
    simp only [decodeRune, if_pos hsep]

variable {k : ℕ}

theorem parseElems_encode {elems : List Bytes} (hne : elems ≠ []) (hk : elems.length ≤ k)
    (hvalid : ∀ e ∈ elems, Valid e) (hmem : ∀ e ∈ elems, Allocates e) (rest : Bytes) :
    (parseElems k (encodeInstruction elems ++ rest)).2 = .ok (elems, rest) := by
  induction elems generalizing k with
  | nil => exact absurd rfl hne
  | cons e es ih =>
    obtain ⟨k, rfl⟩ : ∃ k', k = k' + 1 := ⟨k - 1, by simp only [List.length_cons] at hk; omega⟩
    have he := hvalid e List.mem_cons_self
    have hm := hmem e List.mem_cons_self
    cases es with
    | nil =>
      rw [encodeInstruction, List.append_assoc]
      obtain ⟨hl, hv⟩ := read_encodeElem he hm 59 (by decide) rest
      exact parseElems_last hl hv
    | cons e' es =>
      rw [encodeInstruction, List.append_assoc, List.cons_append]
      obtain ⟨hl, hv⟩ := read_encodeElem he hm 44 (by decide) (encodeInstruction (e' :: es) ++ rest)
      rw [parseElems_more hl hv, ih (by simp) (by simpa using hk) (fun x hx => hvalid x (List.mem_cons_of_mem _ hx))
        fun x hx => hmem x (List.mem_cons_of_mem _ hx)]
      rfl

theorem length_le_encodeInstruction (elems : List Bytes) : elems.length ≤ (encodeInstruction elems).length := by
  induction elems with
  | nil => exact Nat.zero_le _
  | cons e es ih =>
    cases es with
    | nil =>
      simp only [encodeInstruction, encodeElem, List.length_append, List.length_cons]
      omega
    | cons e' es =>
      simp only [encodeInstruction, encodeElem, List.length_append, List.length_cons] at ih ⊢
      omega

theorem parseInstruction_encode {op : Bytes} {args : List Bytes} (hvalid : ∀ e ∈ op :: args, Valid e)
    (hmem : ∀ e ∈ op :: args, Allocates e) (rest : Bytes) :
    (parseInstruction (encodeInstruction (op :: args) ++ rest)).2 = .ok ((op, args), rest) := by
  refine parseInstruction_ok.mpr (parseElems_encode (by simp) ?_ hvalid hmem rest)
  rw [List.length_append]
  exact (length_le_encodeInstruction _).trans (Nat.le_add_right _ _)

/-! The raw reader. -/

/-- One element at the front of the input: its length, its runes and the separator behind them. -/
structure ElementRead (bs lenStr : Bytes) (n : ℕ) (v : List ℕ) (sep : ℕ) (r : Bytes) : Prop where
  length : atoi lenStr = ((n : ℤ), true)
  value : ∃ rest r₀, readDot bs = some (lenStr, rest) ∧ takeRunes n rest = some (v, r₀) ∧ decodeRune r₀ = some (sep, r)

/-- The bytes of an element with its separator. -/
def rawElement (lenStr : Bytes) (v : List ℕ) (sep : ℕ) : Bytes := lenStr ++ 46 :: v.flatMap encodeRune ++ [UInt8.ofNat sep]

variable {bs lenStr r : Bytes} {v : List ℕ}

theorem readRawElems_of_element {k n sep : ℕ} (h : ElementRead bs lenStr n v sep r) :
    readRawElems (k + 1) bs =
      if sep = 59 then .ok (rawElement lenStr v sep, r)
      else if sep = 44 then (readRawElems k r).map fun er => (rawElement lenStr v sep ++ er.1, er.2)
      else .error (.badSeparator sep) := by
  obtain ⟨hlen, rest, r₀, hdot, hrunes, hsep⟩ := h
  have hok : ¬ ((atoi lenStr).2 = false ∨ (atoi lenStr).1 < 0) := by
    rw [hlen]
    simp
  have hn : (atoi lenStr).1.toNat = n := by rw [hlen, Int.toNat_natCast]
  simp only [readRawElems, hdot, if_neg hok, hn, hrunes, hsep, rawElement]

theorem element_of_readRawElems {bs raw r : Bytes} (h : readRawElems (k + 1) bs = .ok (raw, r)) :
    ∃ lenStr n v sep r', ElementRead bs lenStr n v sep r' := by
  simp only [readRawElems] at h
  split at h
  · cases h
  · rename_i lenStr rest hdot
    split_ifs at h with hok
    rw [not_or, Bool.not_eq_false, not_lt] at hok
    split at h
    · cases h
    · rename_i v r₀ hrunes
      split at h
      · cases h
      · rename_i sep r' hsep
        refine ⟨lenStr, _, v, sep, r', ?_, rest, r₀, hdot, hrunes, hsep⟩
        rw [Int.toNat_of_nonneg hok.2, ← hok.1]

variable {n sep : ℕ}

theorem read_of_element (h : ElementRead bs lenStr n v sep r)
    (hmem : 4 * n ≤ maxAlloc) :
    ∃ rest, readLength bs = .ok (n, rest) ∧ readValue n rest = .ok (v.flatMap encodeRune, sep, r) := by
  obtain ⟨hlen, rest, r₀, hdot, hrunes, hsep⟩ := h
  refine ⟨rest, ?_, readValue_ok.mpr ⟨hmem, v, r₀, hrunes, rfl, hsep⟩⟩
  exact readLength_iff.mpr ⟨lenStr, (readDot_eq hdot).1, (readDot_eq hdot).2, hlen⟩

theorem element_of_read {bs rest val r : Bytes} (hl : readLength bs = .ok (n, rest))
    (hv : readValue n rest = .ok (val, sep, r)) :
    ∃ lenStr v, ElementRead bs lenStr n v sep r ∧ val = v.flatMap encodeRune := by
  obtain ⟨-, v, r₀, hrunes, hval, hsep⟩ := readValue_ok.mp hv
  obtain ⟨lenStr, rfl, hdot, hlen⟩ := readLength_iff.mp hl
  exact ⟨lenStr, v, ⟨hlen, rest, r₀, readDot_of_notMem rest hdot, hrunes, hsep⟩, hval⟩

/-- On valid UTF-8 an element and its separator are the bytes they were read from. -/
theorem ElementRead.valid (h : ElementRead bs lenStr n v sep r) (hbs : Valid bs)
    (hsep : sep < 0x80) : bs = rawElement lenStr v sep ++ r ∧ Valid r := by
  obtain ⟨-, rest, r₀, hdot, hrunes, hs⟩ := h
  obtain ⟨hcut, -⟩ := readDot_eq hdot
  obtain ⟨t, rfl⟩ := hbs
  obtain ⟨-, t', -, rfl⟩ := valid_cut (by decide) hcut
  obtain ⟨t₁, t₂, rfl, -, rfl, rfl⟩ := takeRunes_valid hrunes
  cases t₂ with
  | nil => simp [decodeRune] at hs
  | cons c t₂ =>
    rw [decodeRune_encodeText, Option.some.injEq, Prod.mk.injEq] at hs
    obtain ⟨rfl, rfl⟩ := hs
    have hone : encodeRune c.toNat = [UInt8.ofNat c.toNat] := by rw [encodeRune, if_pos hsep]
    refine ⟨?_, t₂, rfl⟩
    rw [hcut, encodeText_append, encodeText_cons, hone, rawElement, flatMap_encodeRune]
    simp

/-- No element of a stream that fits into memory is too long to be allocated. -/
theorem ElementRead.allocates (h : ElementRead bs lenStr n v sep r)
    (hmem : 4 * bs.length ≤ maxAlloc) : 4 * n ≤ maxAlloc ∧ r.length < bs.length := by
  obtain ⟨-, rest, r₀, hdot, hrunes, hs⟩ := h
  have hn := takeRunes_length hrunes
  have hr := (decodeRune_suffix hs).2
  have hlen := congrArg List.length (readDot_eq hdot).1
  rw [List.length_append, List.length_cons] at hlen
  omega

/-- The parser and the raw reader get through the same streams, and stop at the same place. -/
theorem readRawElems_iff {bs : Bytes} (hbs : Valid bs) (hmem : 4 * bs.length ≤ maxAlloc) (r : Bytes) :
    (∃ es, (parseElems k bs).2 = .ok (es, r)) ↔ ∃ raw, readRawElems k bs = .ok (raw, r) := by
  induction k generalizing bs with
  | zero => simp [parseElems, readRawElems]
  | succ k ih =>
    constructor
    · rintro ⟨es, h⟩
      obtain ⟨n, rest, val, sep, rest', hl, hv, hcase⟩ := parseElems_ok h
      obtain ⟨lenStr, v, he, -⟩ := element_of_read hl hv
      rw [readRawElems_of_element he]
      rcases hcase with ⟨rfl, -, rfl⟩ | ⟨rfl, es', hrest, -⟩
      · exact ⟨_, if_pos rfl⟩
      · have hshort := (he.allocates hmem).2
        obtain ⟨raw, hraw⟩ := (ih (he.valid hbs (by norm_num)).2 (by omega)).1 ⟨es', hrest⟩
        exact ⟨rawElement lenStr v 44 ++ raw, by rw [hraw]; rfl⟩
    · rintro ⟨raw, h⟩
      obtain ⟨lenStr, n, v, sep, r', he⟩ := element_of_readRawElems h
      obtain ⟨halloc, hshort⟩ := he.allocates hmem
      obtain ⟨rest, hl, hv⟩ := read_of_element he halloc
      rw [readRawElems_of_element he] at h
      split_ifs at h with h59 h44
      · subst h59
        cases h
        exact ⟨_, parseElems_last hl hv⟩
      · subst h44
        cases hrest : readRawElems k r' with
        | error e => simp [hrest, Except.map] at h
        | ok er =>
          simp only [hrest, Except.map, Except.ok.injEq, Prod.mk.injEq] at h
          obtain ⟨es, hes⟩ := (ih (he.valid hbs (by norm_num)).2 (by omega)).2 ⟨er.1, by rw [hrest, ← h.2]⟩
          exact ⟨v.flatMap encodeRune :: es, by rw [parseElems_more hl hv, hes]; rfl⟩

theorem readRawElems_eq {bs raw r : Bytes} (hbs : Valid bs) (h : readRawElems k bs = .ok (raw, r)) : bs = raw ++ r := by
  induction k generalizing bs raw with
  | zero => simp [readRawElems] at h
  | succ k ih =>
    obtain ⟨lenStr, n, v, sep, r', he⟩ := element_of_readRawElems h
    rw [readRawElems_of_element he] at h
    split_ifs at h with h59 h44
    · cases h
      exact (he.valid hbs (by omega)).1
    · obtain ⟨hfront, hrest⟩ := he.valid hbs (by omega)
      cases hr : readRawElems k r' with
      | error e => simp [hr, Except.map] at h
      | ok er =>
        simp only [hr, Except.map, Except.ok.injEq, Prod.mk.injEq] at h
        have hok : readRawElems k r' = .ok (er.1, r) := by rw [hr, ← h.2]
        rw [hfront, ← h.1, ih hrest hok, List.append_assoc]

/-! The opcode. -/

/-- The scan passes the runes of a text and stops at the separator behind them. -/
theorem scanOpcode_encodeText (t : List Char) {b : UInt8} (hb : b = 44 ∨ b = 59) (acc r : Bytes) :
    scanOpcode t.length acc (encodeText t ++ b :: r) = acc ++ encodeText t := by
  induction t generalizing acc with
  | nil =>
    rw [encodeText_nil, List.nil_append, List.append_nil, List.length_nil, scanOpcode, if_pos hb]
  | cons c t ih =>
    have hd := decodeRune_encodeRune c (encodeText t ++ b :: r)
    rw [encodeText_cons, List.append_assoc, List.length_cons]
    have hfront : (encodeRune c.toNat ++ (encodeText t ++ b :: r)).take
        ((encodeRune c.toNat ++ (encodeText t ++ b :: r)).length - (encodeText t ++ b :: r).length) = encodeRune c.toNat := by
      rw [List.length_append, Nat.add_sub_cancel, List.take_left]
    cases hs : encodeRune c.toNat ++ (encodeText t ++ b :: r) with
    | nil => simp at hs
    | cons b₀ s =>
      rw [hs] at hd hfront
      rw [scanOpcode, hd]
      simp only [hfront]
      rw [ih, List.append_assoc]

theorem atoi_nil : atoi [] = (0, false) := rfl

theorem instructionOpcode_rawElement (h : ElementRead bs lenStr n v sep r)
    (hbs : Valid bs) (hsep : sep = 44 ∨ sep = 59) (more : Bytes) :
    instructionOpcode (rawElement lenStr v sep ++ more) = v.flatMap encodeRune := by
  obtain ⟨hlen, rest, r₀, hdot, hrunes, -⟩ := h
  obtain ⟨hcut, hmem⟩ := readDot_eq hdot
  obtain ⟨t, rfl⟩ := hbs
  obtain ⟨-, t', -, rfl⟩ := valid_cut (by decide) hcut
  obtain ⟨t₁, t₂, -, rfl, rfl, -⟩ := takeRunes_valid hrunes
  have hraw : rawElement lenStr (t₁.map Char.toNat) sep ++ more =
      lenStr ++ 46 :: (encodeText t₁ ++ UInt8.ofNat sep :: more) := by
    rw [rawElement, flatMap_encodeRune]
    simp
  have hne : lenStr ≠ [] := by
    rintro rfl
    rw [atoi_nil] at hlen
    exact absurd (congrArg Prod.snd hlen) Bool.false_ne_true
  have hb : UInt8.ofNat sep = 44 ∨ UInt8.ofNat sep = 59 := by
    rcases hsep with rfl | rfl
    · exact Or.inl rfl
    · exact Or.inr rfl
  rw [hraw, flatMap_encodeRune, instructionOpcode, readDot_of_notMem _ hmem]
  simp only [if_neg hne, hlen, Int.toNat_natCast]
  cases t₁ with
  | nil => rfl
  | cons c t₁ =>
    rw [if_neg (by simp), scanOpcode_encodeText _ hb, List.nil_append]

theorem opcode_of_readRawElems {bs raw r r' : Bytes} {es : List Bytes} (hbs : Valid bs)
    (hparse : (parseElems k bs).2 = .ok (es, r)) (hraw : readRawElems k bs = .ok (raw, r')) :
    es.head? = some (instructionOpcode raw) := by
  cases k with
  | zero => simp [parseElems] at hparse
  | succ k =>
    obtain ⟨n, rest, val, sep, rest', hl, hv, hcase⟩ := parseElems_ok hparse
    obtain ⟨lenStr, v, he, rfl⟩ := element_of_read hl hv
    rw [readRawElems_of_element he] at hraw
    rcases hcase with ⟨rfl, rfl, -⟩ | ⟨rfl, es', -, rfl⟩
    · rw [if_pos rfl, Except.ok.injEq, Prod.mk.injEq] at hraw
      have hop := instructionOpcode_rawElement he hbs (Or.inr rfl) []
      rw [List.append_nil, hraw.1] at hop
      rw [hop, List.head?_cons]
    · cases hr : readRawElems k rest' with
      | error e => simp [hr, Except.map] at hraw
      | ok er =>
        simp only [hr, Except.map, Nat.reduceEqDiff, if_false, if_true, Except.ok.injEq, Prod.mk.injEq] at hraw
        have hop := instructionOpcode_rawElement he hbs (Or.inl rfl) er.1
        rw [hraw.1] at hop
        rw [hop, List.head?_cons]

/-- What was written is parsed, whatever follows it. On valid UTF-8 the raw reader returns an instruction if and only if the
parser does, it returns the bytes that both have used up, and the opcode scan finds in them the opcode that was parsed. -/
theorem instruction_codec :
    (∀ op args rest, (∀ e ∈ op :: args, Valid e) → (∀ e ∈ op :: args, Allocates e) →
      (parseInstruction (encodeInstruction (op :: args) ++ rest)).2 = .ok ((op, args), rest)) ∧
    ∀ bs, Valid bs → 4 * bs.length ≤ maxAlloc →
      ((∃ i r, (parseInstruction bs).2 = .ok (i, r)) ↔ ∃ raw r, readRawInstruction bs = .ok (raw, r)) ∧
      ∀ i r raw r', (parseInstruction bs).2 = .ok (i, r) → readRawInstruction bs = .ok (raw, r') →
        r' = r ∧ bs = raw ++ r ∧ instructionOpcode raw = i.1 := by
  refine ⟨fun op args rest hvalid hmem => parseInstruction_encode hvalid hmem rest, fun bs hbs hmem => ⟨?_, ?_⟩⟩
  · constructor
    · rintro ⟨i, r, hi⟩
      obtain ⟨raw, hraw⟩ := (readRawElems_iff hbs hmem r).1 ⟨_, parseInstruction_ok.mp hi⟩
      exact ⟨raw, r, hraw⟩
    · rintro ⟨raw, r, hraw⟩
      obtain ⟨es, hes⟩ := (readRawElems_iff hbs hmem r).2 ⟨raw, hraw⟩
      obtain ⟨op, args, rfl⟩ := List.exists_cons_of_ne_nil (parseElems_shortens hes).2
      exact ⟨(op, args), r, parseInstruction_ok.mpr hes⟩
  · intro i r raw r' hi hraw
    have hes := parseInstruction_ok.mp hi
    obtain ⟨raw', hraw'⟩ := (readRawElems_iff hbs hmem r).1 ⟨_, hes⟩
    have hsame : raw = raw' ∧ r' = r := by
      have heq := hraw.symm.trans hraw'
      rwa [Except.ok.injEq, Prod.mk.injEq] at heq
    obtain ⟨rfl, rfl⟩ := hsame
    have hop := opcode_of_readRawElems hbs hes hraw
    rw [List.head?_cons, Option.some.injEq] at hop
    exact ⟨rfl, readRawElems_eq hbs hraw, hop.symm⟩

def putInstruction : List Bytes := [encodeText ['p', 'u', 't'], encodeText ['ä', ';']]

/-- An instruction with a separator and a rune of two bytes in its values, and one byte behind it. -/
theorem instruction_codec_put :
    (parseInstruction (encodeInstruction putInstruction ++ [52])).2 =
      .ok ((encodeText ['p', 'u', 't'], [encodeText ['ä', ';']]), [52]) ∧
    ∃ raw r, readRawInstruction (encodeInstruction putInstruction ++ [52]) = .ok (raw, r) := by
  have htexts : ∀ e ∈ putInstruction, Valid e ∧ Allocates e := by
    intro e he
    rcases List.mem_pair.1 he with rfl | rfl
    · refine ⟨⟨_, rfl⟩, ?_⟩
      rw [Allocates, text_encodeText]
      exact Nat.le_of_ble_eq_true rfl
    · refine ⟨⟨_, rfl⟩, ?_⟩
      rw [Allocates, text_encodeText]
      exact Nat.le_of_ble_eq_true rfl
  have hstream : Valid (encodeInstruction putInstruction ++ [52]) := ⟨"3.put,2.ä;;4".toList, by decide +kernel⟩
  have hmem : 4 * (encodeInstruction putInstruction ++ [52]).length ≤ maxAlloc := by decide +kernel
  have hparse := instruction_codec.1 _ _ [52] (fun e he => (htexts e he).1) fun e he => (htexts e he).2
  exact ⟨hparse, ((instruction_codec.2 _ hstream hmem).1).1 ⟨_, _, hparse⟩⟩

end Captivo.Guac
