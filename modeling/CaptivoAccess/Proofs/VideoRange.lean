import CaptivoAccess.Lib.HttpHead
import CaptivoAccess.Spec.RecFetch

/-! What the video route returns for a Range. The slice is the right one wherever it
travels: it is lost when it does not fit one frame, an empty chunk ends the whole
recording, zero as a last byte means the end, and a suffix is served from the start. -/

namespace Captivo.RecFetch

open Lib.Utf8 Lib.Framed Captivo.Tunnel

/-- Digits of a Range header. -/
structure Digits where
  chars : Text
  ne : chars ≠ []
  digit : ∀ c ∈ chars, c.isDigit = true

def Digits.value (d : Digits) : ℕ := decimalValue d.chars

inductive RangeSpec where
  | bounded (first last : Digits)
  | openEnded (first : Digits)
  | suffix (length : Digits)

def RangeSpec.sides : RangeSpec → Text × Text
  | .bounded first last => (first.chars, last.chars)
  | .openEnded first => (first.chars, [])
  | .suffix length => ([], length.chars)

def RangeSpec.header (spec : RangeSpec) : Text := "bytes=".toList ++ spec.sides.1 ++ '-' :: spec.sides.2

/-- Some byte of a recording of that length is in the range. -/
def RangeSpec.Satisfiable (total : ℕ) : RangeSpec → Prop
  | .bounded first last => first.value ≤ last.value ∧ first.value < total
  | .openEnded first => first.value < total
  | .suffix length => 0 < length.value ∧ 0 < total

/-- The first and the last byte that are asked for. -/
def RangeSpec.slice (total : ℕ) : RangeSpec → ℕ × ℕ
  | .bounded first last => (first.value, min last.value (total - 1))
  | .openEnded first => (first.value, total - 1)
  | .suffix length => (total - length.value, total - 1)

/-- The answer is what was asked for. -/
def Answers (r : Recording) : Option RangeSpec → Response → Prop
  | none, resp => resp.status = 200 ∧ resp.body = r.bytes ∧ resp.contentLength.getD 0 = r.bytes.length
  | some spec, resp =>
    resp.status = 206 ∧
      resp.contentRange = some ⟨.finite (spec.slice r.bytes.length).1, (spec.slice r.bytes.length).2, r.bytes.length⟩ ∧
      resp.body = (r.bytes.take ((spec.slice r.bytes.length).2 + 1)).drop (spec.slice r.bytes.length).1

/-- Every chunk fits a frame and none without bytes comes before one with bytes. -/
def Whole (chunks : List Bytes) : Prop :=
  (∀ c ∈ chunks, c.length ≤ maxFrame) ∧ (chunks.dropWhile (· ≠ [])).flatten = []

instance (chunks : List Bytes) : Decidable (Whole chunks) :=
  inferInstanceAs (Decidable ((∀ c ∈ chunks, c.length ≤ maxFrame) ∧ (chunks.dropWhile (· ≠ [])).flatten = []))

/-- A last position that `int64` does not hold, and that is not taken for infinite either. -/
def Unsendable (n : ℕ) : Prop := tooLargeFrom ≤ n ∧ n < infinityFrom

/-- Where the route is right about a satisfiable range. -/
def Servable (r : Recording) : Option RangeSpec → Prop
  | none => Whole r.chunks
  | some (.openEnded first) => if first.value = 0 then Whole r.chunks else r.bytes.length - first.value ≤ maxFrame
  | some (.bounded first last) =>
    ¬ Unsendable last.value ∧
      if last.value = 0 then r.bytes.length = 1 ∧ Whole r.chunks
      else if first.value = 0 ∧ infinityFrom ≤ last.value then Whole r.chunks
      else min last.value (r.bytes.length - 1) + 1 - first.value ≤ maxFrame
  | some (.suffix length) =>
    ¬ Unsendable length.value ∧ r.bytes.length ≤ length.value ∧
      if infinityFrom ≤ length.value then Whole r.chunks else r.bytes.length ≤ maxFrame

/-! The frames. -/

variable (chunks : List Bytes)

theorem writeFrames_eq :
    writeFrames chunks = (chunks.takeWhile fun c => c.length ≤ maxFrame).flatMap encode := by
  induction chunks with
  | nil => rfl
  | cons c chunks ih =>
    by_cases hc : maxFrame < c.length
    · simp [writeFrames, writeFrame, hc, Nat.not_le.2 hc]
    · simp [writeFrames, writeFrame, hc, Nat.not_lt.1 hc, ih, encode]

theorem readLoop_writeFrames :
    readLoop (writeFrames chunks) = chunks.takeWhile fun c => c.length ≤ maxFrame := by
  rw [writeFrames_eq]
  apply frames_encode (by decide)
  intro c hc
  exact of_decide_eq_true (List.all_eq_true.1 List.all_takeWhile c hc)

/-- What arrives of chunks that are sent one by one. -/
def arrives (chunks : List Bytes) : Bytes :=
  ((chunks.takeWhile fun c => c.length ≤ maxFrame).takeWhile (· ≠ [])).flatten

theorem arrives_eq_iff : arrives chunks = chunks.flatten ↔ Whole chunks := by
  induction chunks with
  | nil => simp [arrives, Whole]
  | cons c chunks ih =>
    by_cases hempty : c = []
    · subst hempty
      have harr : arrives ([] :: chunks) = [] := by simp [arrives]
      have hwhole : Whole ([] :: chunks) ↔ (∀ c ∈ chunks, c.length ≤ maxFrame) ∧ ∀ c ∈ chunks, c = [] := by
        simp [Whole]
      rw [harr, hwhole, List.flatten_cons, List.nil_append, eq_comm, List.flatten_eq_nil_iff]
      exact ⟨fun h => ⟨fun c hc => by simp [h c hc], h⟩, fun h => h.2⟩
    · by_cases hfit : c.length ≤ maxFrame
      · have harr : arrives (c :: chunks) = c ++ arrives chunks := by
          simp [arrives, hfit, hempty]
        rw [harr, List.flatten_cons, List.append_cancel_left_eq, ih]
        simp [Whole, hfit, hempty]
      · have harr : arrives (c :: chunks) = [] := by simp [arrives, hfit]
        rw [harr, eq_comm]
        simp [Whole, hfit, hempty]

theorem arrives_singleton (part : Bytes) : arrives [part] = if part.length ≤ maxFrame then part else [] := by
  by_cases hfit : part.length ≤ maxFrame
  · by_cases hempty : part = []
    · simp [arrives, hempty]
    · simp [arrives, hfit, hempty]
  · simp [arrives, hfit]

/-! The range within the chunks. -/

theorem readChunks_eq {lo hi : ℕ} (h : lo ≤ hi) (chunks : List Bytes) (offset : ℕ) :
    readChunks lo hi offset chunks = (chunks.flatten.take (hi + 1 - offset)).drop (lo - offset) := by
  induction chunks generalizing offset with
  | nil => simp [readChunks]
  | cons c chunks ih =>
    have hnext : readChunks lo hi ((offset : ℤ) + (c.length : ℤ)) chunks =
        (chunks.flatten.take (hi + 1 - (offset + c.length))).drop (lo - (offset + c.length)) := by
      rw [← ih (offset + c.length)]
      push_cast
      rfl
    simp only [readChunks]
    rw [List.flatten_cons, List.take_append, hnext]
    have hsub : hi + 1 - offset - c.length = hi + 1 - (offset + c.length) := by omega
    rw [hsub]
    by_cases hbefore : (offset : ℤ) + c.length - 1 < lo
    · -- the chunk lies before the range
      have hall : c.take (hi + 1 - offset) = c := List.take_of_length_le (by omega)
      have hskip : lo - offset - c.length = lo - (offset + c.length) := by omega
      have hgone : c.drop (lo - offset) = [] := List.drop_of_length_le (by omega)
      rw [if_pos hbefore, hall, List.drop_append, hgone, List.nil_append, hskip]
    · rw [if_neg hbefore]
      by_cases hafter : (offset : ℤ) > hi
      · have hzero : hi + 1 - offset = 0 := by omega
        have hzero' : hi + 1 - (offset + c.length) = 0 := by omega
        rw [if_pos hafter, hzero, hzero']
        simp
      · have hlo : lo - offset ≤ (c.take (hi + 1 - offset)).length := by
          rw [List.length_take]
          omega
        have hnone : lo - (offset + c.length) = 0 := by omega
        have hlow : (if (lo : ℤ) > offset then (lo : ℤ) - offset else 0).toNat = lo - offset := by
          split_ifs <;> omega
        have htake : c.take ((if (hi : ℤ) < offset + c.length - 1 then (hi : ℤ) - offset else c.length - 1) + 1).toNat =
            c.take (hi + 1 - offset) := by
          split_ifs with hend
          · congr 1
            omega
          · rw [List.take_of_length_le (by omega), List.take_of_length_le (by omega)]
        rw [if_neg hafter, List.drop_append_of_le_length hlo, hnone, List.drop_zero, hlow, htake]

/-! The connector's answer. -/

theorem totalPlaintextBytes_eq : totalPlaintextBytes chunks = chunks.flatten.length :=
  List.length_flatten.symm

theorem recFetch_whole :
    recFetch chunks (0 : ℕ) (0 : ℕ) = some (chunks.flatten.length, arrives chunks) := by
  simp [recFetch, handleRecFetch, totalPlaintextBytes_eq, readLoop_writeFrames, arrives]

/-- The last byte of the answer when `toByte` is asked for. -/
def lastByte (total toByte : ℕ) : ℕ := if 0 < toByte ∧ toByte < total then toByte else total - 1

theorem lastByte_zero (total : ℕ) : lastByte total 0 = total - 1 := if_neg (by omega)

theorem recFetch_range {lo toByte : ℕ} (hpos : 0 < lo ∨ 0 < toByte) (htotal : 0 < chunks.flatten.length)
    (hlo : lo ≤ lastByte chunks.flatten.length toByte) :
    recFetch chunks lo toByte = some (chunks.flatten.length,
      arrives [(chunks.flatten.take (lastByte chunks.flatten.length toByte + 1)).drop lo]) := by
  have hbranch : (lo : ℤ) > 0 ∨ (toByte : ℤ) > 0 := by omega
  have hclamp : (if (toByte : ℤ) ≤ 0 ∨ (toByte : ℤ) ≥ chunks.flatten.length then (chunks.flatten.length : ℤ) - 1
      else toByte) = (lastByte chunks.flatten.length toByte : ℕ) := by
    unfold lastByte
    split_ifs <;> omega
  have hok : ¬ (chunks.flatten.length = 0 ∨ (lo : ℤ) > (lastByte chunks.flatten.length toByte : ℕ)) := by omega
  have hvalid : ¬ ((lo : ℤ) < 0 ∨ ((lastByte chunks.flatten.length toByte : ℕ) : ℤ) < lo) := by omega
  have hpart := readChunks_eq hlo chunks 0
  rw [Nat.sub_zero, Nat.sub_zero, Nat.cast_zero] at hpart
  simp only [recFetch, handleRecFetch, totalPlaintextBytes_eq, if_pos hbranch, hclamp, if_neg hok, readRange,
    if_neg hvalid, hpart, readLoop_writeFrames, Option.map_some]
  rfl

theorem arrives_singleton_eq_iff {part : Bytes} (hne : part ≠ []) : arrives [part] = part ↔ part.length ≤ maxFrame := by
  rw [arrives_singleton]
  split_ifs with hfit
  · exact iff_of_true rfl hfit
  · exact iff_of_false (Ne.symm hne) hfit

theorem length_slice (bs : Bytes) {lo hi : ℕ} (hhi : hi < bs.length) : ((bs.take (hi + 1)).drop lo).length = hi + 1 - lo := by
  rw [List.length_drop, List.length_take]
  omega

/-! The header. -/

theorem isSpace_of_isDigit {c : Char} (h : c.isDigit = true) : isSpace c = false := by
  have hc : 48 ≤ c.toNat ∧ c.toNat ≤ 57 := by
    simp only [Char.isDigit, Bool.and_eq_true, decide_eq_true_eq] at h
    exact ⟨UInt32.le_iff_toNat_le.1 h.1, UInt32.le_iff_toNat_le.1 h.2⟩
  simp only [isSpace, List.contains_eq_mem, List.mem_cons, List.not_mem_nil, or_false, Bool.or_eq_false_iff,
    Bool.and_eq_false_iff, decide_eq_false_iff_not]
  omega

theorem trim_of_no_space {t : Text} (h : ∀ c ∈ t, isSpace c = false) : trim t = t := Lib.HttpHead.trim_eq_self h

theorem RangeSpec.sides_digit (spec : RangeSpec) :
    (∀ c ∈ spec.sides.1, c.isDigit = true) ∧ ∀ c ∈ spec.sides.2, c.isDigit = true := by
  rcases spec with ⟨first, last⟩ | first | length
  · exact ⟨first.digit, last.digit⟩
  · exact ⟨first.digit, List.forall_mem_nil _⟩
  · exact ⟨List.forall_mem_nil _, length.digit⟩

theorem RangeSpec.header_eq (spec : RangeSpec) : spec.header = "bytes=".toList ++ (spec.sides.1 ++ '-' :: spec.sides.2) :=
  List.append_assoc _ _ _

theorem rangeMatch_header (spec : RangeSpec) : rangeMatch (trim spec.header) = some spec.sides := by
  obtain ⟨h1, h2⟩ := spec.sides_digit
  have hbytes : ∀ c ∈ "bytes=".toList, isSpace c = false := List.forall_iff_forall_mem.1 (by decide)
  have hnospace : ∀ c ∈ spec.header, isSpace c = false := by
    intro c hc
    simp only [spec.header_eq, List.mem_append, List.mem_cons] at hc
    rcases hc with hc | hc | rfl | hc
    · exact hbytes c hc
    · exact isSpace_of_isDigit (h1 c hc)
    · decide
    · exact isSpace_of_isDigit (h2 c hc)
  have hdrop : spec.header.drop 6 = spec.sides.1 ++ '-' :: spec.sides.2 := by
    rw [spec.header_eq]
    exact List.drop_left' rfl
  have hprefix : "bytes=".toList.isPrefixOf spec.header = true := by
    rw [List.isPrefixOf_iff_prefix, spec.header_eq]
    exact List.prefix_append _ _
  have hdigits : (spec.sides.1 ++ '-' :: spec.sides.2).dropWhile Char.isDigit = '-' :: spec.sides.2 := by
    rw [List.dropWhile_append_of_pos h1, List.dropWhile_cons_of_neg (by decide)]
  have htake : (spec.sides.1 ++ '-' :: spec.sides.2).takeWhile Char.isDigit = spec.sides.1 := by
    rw [List.takeWhile_append_of_pos h1, List.takeWhile_cons_of_neg (by decide), List.append_nil]
  rw [trim_of_no_space hnospace, rangeMatch, if_pos hprefix]
  simp only [hdrop, hdigits, htake, List.all_eq_true.2 h2, if_true]

theorem side_nil : side [] = .finite 0 := rfl

theorem side_digits (d : Digits) : side d.chars = if d.value < infinityFrom then .finite d.value else .Infinity :=
  if_neg d.ne

theorem videoGet_header (spec : RangeSpec) {fromByte toByte : JsNumber}
    (hfrom : side spec.sides.1 = fromByte) (hto : side spec.sides.2 = toByte) :
    videoGet chunks (some spec.header) = respond true fromByte toByte (fetchFromConnector chunks fromByte toByte) := by
  have hwants : (spec.sides.1 ≠ [] || spec.sides.2 ≠ []) = true := by
    rcases spec with ⟨first, last⟩ | first | length
    · simp [RangeSpec.sides, first.ne]
    · simp [RangeSpec.sides, first.ne]
    · simp [RangeSpec.sides, length.ne]
  simp only [videoGet, Option.bind_some, rangeMatch_header, hwants, hfrom, hto]

theorem tooLargeFrom_lt : 2 ^ 53 < tooLargeFrom ∧ tooLargeFrom < infinityFrom := by
  decide +kernel

/-! The answers, by the way they travel. -/

section Answer

variable {r : Recording} {spec : RangeSpec}

theorem respond_some {lo total : ℕ} (htotal : 0 < total) (toByte : ℕ) (body : Bytes) :
    respond true (.finite lo) (.finite toByte) (some (total, body)) =
      ⟨206, some ⟨.finite lo, lastByte total toByte, total⟩, none, body⟩ := by
  simp [respond, htotal, lastByte]

theorem respond_infinity {lo total : ℕ} (htotal : 0 < total) (body : Bytes) :
    respond true (.finite lo) .Infinity (some (total, body)) = respond true (.finite lo) (.finite 0) (some (total, body)) := by
  simp [respond, htotal]

theorem respond_without_range (fromByte toByte : JsNumber) (total : ℕ) (body : Bytes) :
    respond false fromByte toByte (some (total, body)) = ⟨200, none, if 0 < total then some total else none, body⟩ := by
  simp [respond]

theorem answers_iff (lo hi : ℕ) (body : Bytes) :
    Answers r (some spec) ⟨206, some ⟨.finite lo, hi, r.bytes.length⟩, none, body⟩ ↔
      spec.slice r.bytes.length = (lo, hi) ∧ body = (r.bytes.take (hi + 1)).drop lo := by
  rcases hs : spec.slice r.bytes.length with ⟨a, b⟩
  simp only [Answers, hs, Option.some.injEq, ContentRange.mk.injEq, JsNumber.finite.injEq, and_true, true_and,
    Prod.mk.injEq]
  constructor
  · rintro ⟨⟨rfl, rfl⟩, hb⟩
    exact ⟨⟨rfl, rfl⟩, hb⟩
  · rintro ⟨⟨rfl, rfl⟩, hb⟩
    exact ⟨⟨rfl, rfl⟩, hb⟩

theorem answers_whole (htotal : 0 < r.bytes.length) :
    Answers r (some spec) (respond true (.finite 0) (.finite 0) (recFetch r.chunks (0 : ℕ) (0 : ℕ))) ↔
      spec.slice r.bytes.length = (0, r.bytes.length - 1) ∧ Whole r.chunks := by
  have hall : (r.bytes.take (r.bytes.length - 1 + 1)).drop 0 = r.bytes := by
    rw [Nat.sub_add_cancel htotal, List.take_length, List.drop_zero]
  rw [recFetch_whole, ← Recording.bytes, respond_some htotal, answers_iff, lastByte_zero, hall, ← arrives_eq_iff]
  rfl

theorem answers_part {lo toByte : ℕ} (hpos : 0 < lo ∨ 0 < toByte) (htotal : 0 < r.bytes.length)
    (hlo : lo ≤ lastByte r.bytes.length toByte) :
    Answers r (some spec) (respond true (.finite lo) (.finite toByte) (recFetch r.chunks lo toByte)) ↔
      spec.slice r.bytes.length = (lo, lastByte r.bytes.length toByte) ∧
        lastByte r.bytes.length toByte + 1 - lo ≤ maxFrame := by
  have hlt : lastByte r.bytes.length toByte < r.bytes.length := by
    unfold lastByte
    split_ifs <;> omega
  have hlen : ((r.bytes.take (lastByte r.bytes.length toByte + 1)).drop lo).length =
      lastByte r.bytes.length toByte + 1 - lo := length_slice r.bytes hlt
  have hne : (r.bytes.take (lastByte r.bytes.length toByte + 1)).drop lo ≠ [] := by
    rw [← List.length_pos_iff, hlen]
    omega
  rw [recFetch_range r.chunks hpos htotal hlo, ← Recording.bytes, respond_some htotal, answers_iff,
    arrives_singleton_eq_iff hne, hlen]

theorem fetch_finite {lo n : ℕ} (hlo : lo < tooLargeFrom) (hn : n < tooLargeFrom) (chunks : List Bytes) :
    fetchFromConnector chunks (.finite lo) (.finite n) = recFetch chunks lo n := by
  simp only [fetchFromConnector, int64, if_pos hlo, if_pos hn]

theorem fetch_infinity {lo : ℕ} (hlo : lo < tooLargeFrom) (chunks : List Bytes) :
    fetchFromConnector chunks (.finite lo) .Infinity = recFetch chunks lo (0 : ℕ) := by
  simp only [fetchFromConnector, int64, if_pos hlo]
  rfl

theorem fetch_unsendable {n : ℕ} (hn : tooLargeFrom ≤ n) (chunks : List Bytes) (lo : JsNumber) :
    fetchFromConnector chunks lo (.finite n) = none := by
  have hnone : int64 (.finite n) = none := if_neg (Nat.not_lt.2 hn)
  rw [fetchFromConnector, hnone]
  cases int64 lo <;> rfl

theorem side_of_lt {d : Digits} (h : d.value < infinityFrom) : side d.chars = .finite d.value := by
  rw [side_digits, if_pos h]

theorem side_of_infinite {d : Digits} (h : infinityFrom ≤ d.value) : side d.chars = .Infinity := by
  rw [side_digits, if_neg (Nat.not_lt.2 h)]

theorem lt_tooLargeFrom {lo : ℕ} (h : lo < r.bytes.length) : lo < tooLargeFrom := by
  have hsafe : r.bytes.length ≤ 2 ^ 53 := r.safe
  have hconst := tooLargeFrom_lt
  omega

theorem side_first {first : Digits} (h : first.value < r.bytes.length) : side first.chars = .finite first.value :=
  side_of_lt ((lt_tooLargeFrom h).trans tooLargeFrom_lt.2)

theorem sendable_of_infinite {n : ℕ} (h : infinityFrom ≤ n) : ¬ Unsendable n := fun hn => Nat.not_lt.2 h hn.2

theorem sendable_of_small {n : ℕ} (h : n < tooLargeFrom) : ¬ Unsendable n := fun hn => Nat.not_lt.2 hn.1 h

theorem not_answers_503 (fromByte toByte : JsNumber) : ¬ Answers r (some spec) (respond true fromByte toByte none) := by
  simp [Answers, respond]

theorem respond_fetch_infinity {lo : ℕ} (h : lo < r.bytes.length) :
    respond true (.finite lo) .Infinity (fetchFromConnector r.chunks (.finite lo) .Infinity) =
      respond true (.finite lo) (.finite 0) (recFetch r.chunks lo (0 : ℕ)) := by
  have htotal : 0 < r.chunks.flatten.length := Nat.lt_of_le_of_lt (Nat.zero_le _) h
  rw [fetch_infinity (lt_tooLargeFrom h)]
  by_cases hlo : lo = 0
  · rw [hlo, recFetch_whole, respond_infinity htotal]
  · have hlast : lo ≤ lastByte r.chunks.flatten.length 0 := by
      rw [lastByte_zero]
      exact Nat.le_sub_one_of_lt h
    rw [recFetch_range r.chunks (Or.inl (Nat.pos_of_ne_zero hlo)) htotal hlast, respond_infinity htotal]

theorem answers_openEnded_iff {first : Digits} (hsat : (RangeSpec.openEnded first).Satisfiable r.bytes.length) :
    Answers r (some (.openEnded first)) (videoGet r.chunks (some (RangeSpec.openEnded first).header)) ↔
      Servable r (some (.openEnded first)) := by
  have htotal : 0 < r.bytes.length := Nat.lt_of_le_of_lt (Nat.zero_le _) hsat
  rw [videoGet_header r.chunks (.openEnded first) (side_first hsat) side_nil,
    fetch_finite (lt_tooLargeFrom hsat) (by decide), Servable]
  split_ifs with hfirst
  · rw [hfirst, answers_whole htotal]
    exact and_iff_right (by rw [RangeSpec.slice, hfirst])
  · have hlo : first.value ≤ lastByte r.bytes.length 0 := by
      rw [lastByte_zero]
      exact Nat.le_sub_one_of_lt hsat
    rw [answers_part (Or.inl (by omega)) htotal hlo, lastByte_zero, Nat.sub_add_cancel htotal]
    exact and_iff_right rfl

theorem answers_bounded_iff {first last : Digits} (hsat : (RangeSpec.bounded first last).Satisfiable r.bytes.length) :
    Answers r (some (.bounded first last)) (videoGet r.chunks (some (RangeSpec.bounded first last).header)) ↔
      Servable r (some (.bounded first last)) := by
  obtain ⟨hle, hlt⟩ := hsat
  have htotal : 0 < r.bytes.length := by omega
  have hsmall := lt_tooLargeFrom hlt
  have hslice : (RangeSpec.bounded first last).slice r.bytes.length =
      (first.value, min last.value (r.bytes.length - 1)) := rfl
  by_cases hinf : infinityFrom ≤ last.value
  · have hmin : min last.value (r.bytes.length - 1) = r.bytes.length - 1 := by
      have hend := lt_tooLargeFrom (Nat.sub_one_lt_of_lt htotal)
      have hconst := tooLargeFrom_lt
      omega
    have hpos : last.value ≠ 0 := by
      have hconst := tooLargeFrom_lt
      omega
    rw [videoGet_header r.chunks (.bounded first last) (side_first hlt) (side_of_infinite hinf),
      respond_fetch_infinity hlt, Servable, if_neg hpos, hmin]
    by_cases hfirst : first.value = 0
    · rw [hfirst, answers_whole htotal, hslice, hmin, hfirst]
      simp [sendable_of_infinite hinf, hinf]
    · have hlo : first.value ≤ lastByte r.bytes.length 0 := by
        rw [lastByte_zero]
        omega
      rw [answers_part (Or.inl (Nat.pos_of_ne_zero hfirst)) htotal hlo, lastByte_zero, hslice, hmin]
      simp [sendable_of_infinite hinf, hfirst]
  · rw [not_le] at hinf
    by_cases hlarge : tooLargeFrom ≤ last.value
    · rw [videoGet_header r.chunks (.bounded first last) (side_first hlt) (side_of_lt hinf), fetch_unsendable hlarge]
      exact iff_of_false (not_answers_503 _ _) fun h => h.1 ⟨hlarge, hinf⟩
    · rw [not_le] at hlarge
      have hsend := sendable_of_small hlarge
      rw [videoGet_header r.chunks (.bounded first last) (side_first hlt) (side_of_lt hinf), fetch_finite hsmall hlarge,
        Servable]
      by_cases hlast : last.value = 0
      · -- the last byte is the first one, and zero stands for the end
        have hfirst : first.value = 0 := by omega
        have hone : min 0 (r.bytes.length - 1) = r.bytes.length - 1 ↔ r.bytes.length = 1 := by omega
        rw [hlast] at hsend
        rw [hfirst, hlast, answers_whole htotal, hslice, hfirst, hlast, if_pos rfl, Prod.mk.injEq, hone]
        simp [hsend]
      · have hmin : lastByte r.bytes.length last.value = min last.value (r.bytes.length - 1) := by
          unfold lastByte
          split_ifs <;> omega
        have hlo : first.value ≤ lastByte r.bytes.length last.value := by omega
        rw [answers_part (Or.inr (by omega)) htotal hlo, hslice, hmin, if_neg hlast, if_neg (by omega)]
        simp [hsend]

theorem answers_suffix_iff {length : Digits} (hsat : (RangeSpec.suffix length).Satisfiable r.bytes.length) :
    Answers r (some (.suffix length)) (videoGet r.chunks (some (RangeSpec.suffix length).header)) ↔
      Servable r (some (.suffix length)) := by
  obtain ⟨hpos, htotal⟩ := hsat
  have hslice : (RangeSpec.suffix length).slice r.bytes.length = (r.bytes.length - length.value, r.bytes.length - 1) := rfl
  by_cases hinf : infinityFrom ≤ length.value
  · have hall : r.bytes.length ≤ length.value := by
      have hend := lt_tooLargeFrom (Nat.sub_one_lt_of_lt htotal)
      have hconst := tooLargeFrom_lt
      omega
    rw [videoGet_header r.chunks (.suffix length) side_nil (side_of_infinite hinf), respond_fetch_infinity htotal,
      answers_whole htotal, hslice, Nat.sub_eq_zero_of_le hall, Servable, if_pos hinf]
    simp [sendable_of_infinite hinf, hall]
  · rw [not_le] at hinf
    by_cases hlarge : tooLargeFrom ≤ length.value
    · rw [videoGet_header r.chunks (.suffix length) side_nil (side_of_lt hinf), fetch_unsendable hlarge]
      exact iff_of_false (not_answers_503 _ _) fun h => h.1 ⟨hlarge, hinf⟩
    · rw [not_le] at hlarge
      rw [videoGet_header r.chunks (.suffix length) side_nil (side_of_lt hinf),
        fetch_finite (lt_tooLargeFrom htotal) hlarge, answers_part (Or.inr hpos) htotal (Nat.zero_le _), hslice, Servable,
        if_neg (Nat.not_le.2 hinf), Prod.mk.injEq, Nat.sub_eq_zero_iff_le]
      -- the positions agree only if the suffix is the whole recording
      constructor
      · rintro ⟨⟨hall, hlast⟩, hfit⟩
        exact ⟨sendable_of_small hlarge, hall, by omega⟩
      · rintro ⟨-, hall, hfit⟩
        have hlast : lastByte r.bytes.length length.value = r.bytes.length - 1 := if_neg (by omega)
        exact ⟨⟨hall, hlast.symm⟩, by omega⟩

end Answer

/-- The route answers a satisfiable range, or a request without one, with the bytes that are asked for
exactly where `Servable` says. -/
theorem video_answers_iff (r : Recording) (range : Option RangeSpec)
    (hsat : ∀ spec ∈ range, spec.Satisfiable r.bytes.length) :
    Answers r range (videoGet r.chunks (range.map RangeSpec.header)) ↔ Servable r range := by
  rcases range with _ | spec
  · have hfetch := fetch_finite (by decide : 0 < tooLargeFrom) (by decide : 0 < tooLargeFrom) r.chunks
    have hget : videoGet r.chunks none = respond false (.finite 0) (.finite 0) (some (r.bytes.length, arrives r.chunks)) := by
      rw [recFetch_whole] at hfetch
      exact congrArg (respond false _ _) hfetch
    rw [Option.map_none, hget, respond_without_range, Servable, ← arrives_eq_iff]
    refine ⟨fun h => h.2.1, fun h => ⟨rfl, h, ?_⟩⟩
    split_ifs with hpos
    · rfl
    · exact (Nat.eq_zero_of_not_pos hpos).symm
  · rcases spec with ⟨first, last⟩ | first | length
    · exact answers_bounded_iff (hsat _ rfl)
    · exact answers_openEnded_iff (hsat _ rfl)
    · exact answers_suffix_iff (hsat _ rfl)

/-- Four bytes in two chunks. -/
def shortVideo : Recording := ⟨[[1, 2], [3, 4]], by decide⟩

def zero : Digits := ⟨['0'], by decide, List.forall_mem_singleton.2 (by decide)⟩

def one : Digits := ⟨['1'], by decide, List.forall_mem_singleton.2 (by decide)⟩

def two : Digits := ⟨['2'], by decide, List.forall_mem_singleton.2 (by decide)⟩

theorem video_answers_middle :
    (RangeSpec.bounded one two).Satisfiable shortVideo.bytes.length ∧
      Answers shortVideo (some (.bounded one two)) (videoGet shortVideo.chunks (some "bytes=1-2".toList)) := by
  have hsat : (RangeSpec.bounded one two).Satisfiable shortVideo.bytes.length := ⟨by decide, by decide⟩
  refine ⟨hsat, (video_answers_iff shortVideo (some (.bounded one two)) (by simpa using hsat)).2 ?_⟩
  unfold Servable Unsendable
  decide +kernel

/-- The first byte is answered with all four, the last two with the first three, and a recording that
begins with an empty chunk with nothing. -/
theorem video_misanswers :
    videoGet shortVideo.chunks (some (RangeSpec.bounded zero zero).header) =
      ⟨206, some ⟨.finite 0, 3, 4⟩, none, [1, 2, 3, 4]⟩ ∧
    videoGet shortVideo.chunks (some (RangeSpec.suffix two).header) = ⟨206, some ⟨.finite 0, 2, 4⟩, none, [1, 2, 3]⟩ ∧
    videoGet [[], [1, 2]] none = ⟨200, none, some 2, []⟩ ∧
    ¬ Answers shortVideo (some (.bounded zero zero)) (videoGet shortVideo.chunks (some (RangeSpec.bounded zero zero).header)) := by
  refine ⟨by decide +kernel, by decide +kernel, by decide +kernel, ?_⟩
  unfold Answers
  decide +kernel

end Captivo.RecFetch
