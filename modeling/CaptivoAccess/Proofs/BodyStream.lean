import CaptivoAccess.Proofs.PageInjection
import CaptivoAccess.Sanity.GuacProto
import CaptivoAccess.Spec.BodyRelay

/-! A body that is read back from a tunnel stream, whatever the pieces it arrives in and the
buffers it is read into: the chunks give what was written, and what follows them decides
how the reading ends. -/

namespace Captivo.Body

open Lib.Utf8 Lib.Framed Lib.Arrivals Lib.HttpHead Proxy

/-- The chunks a source is written as: what its reads gave, but for the empty ones. -/
def chunksOf : List SourceRead → List Bytes
  | [] => []
  | r :: reads => (if r.data = [] then [] else [r.data]) ++ if r.err.isNone then chunksOf reads else []

theorem chunksOf_sized (reads : List SourceRead) : ∀ c ∈ chunksOf reads, c ≠ [] ∧ c.length ≤ chunkSize := by
  induction reads with
  | nil => simp [chunksOf]
  | cons r reads ih =>
    rw [chunksOf]
    refine List.forall_mem_append.2 ⟨?_, ?_⟩
    · split_ifs with hempty
      · simp
      · simpa using ⟨hempty, r.fits⟩
    · split_ifs
      · exact ih
      · simp

theorem delivered_eq (reads : List SourceRead) : delivered reads = (chunksOf reads).flatten := by
  induction reads with
  | nil => rfl
  | cons r reads ih =>
    rw [delivered, chunksOf, List.flatten_append]
    refine congrArg₂ (· ++ ·) ?_ ?_
    · split_ifs with hempty
      · exact hempty
      · simp
    · split_ifs
      · exact ih
      · rfl

variable {reads : List SourceRead}

theorem WriteBody_eq (h : (WriteBody reads).2 = true) :
    (WriteBody reads).1 = (chunksOf reads).flatMap encode ++ header 0 := by
  induction reads with
  | nil => cases h
  | cons r reads ih =>
    have hchunk : (if r.data = [] then [] else encode r.data) = (if r.data = [] then [] else [r.data]).flatMap encode := by
      split_ifs
      · rfl
      · simp
    rw [WriteBody] at h ⊢
    rw [chunksOf, List.flatMap_append, ← hchunk]
    cases herr : r.err with
    | none =>
      rw [herr] at h
      simp [ih h]
    | some e =>
      rw [herr] at h
      cases e with
      | EOF => simp
      | failed => cases h

/-! Headers. -/

theorem readHeader_ok {s : Stream UInt8} {n : ℕ} {t : Bytes} (hn : n < 2 ^ 32) (h : s.bytes = header n ++ t) :
    ∃ r, readHeader s = (.ok n, r) ∧ r.bytes = t ∧ weight r.pieces ≤ weight s.pieces := by
  obtain ⟨htake, hdrop⟩ := fill_bytes 4 s.pieces
  rw [Stream.bytes] at h
  rw [h] at htake hdrop
  have hgot : (fill 4 s.pieces).1 = header n := htake.trans (List.take_left' rfl)
  refine ⟨{ s with pieces := (fill 4 s.pieces).2 }, ?_, hdrop.trans (List.drop_left' rfl), weight_fill_le 4 s.pieces⟩
  simp only [readHeader, hgot, header]
  rw [lengthOf_header hn]

theorem readHeader_short {s : Stream UInt8} (hpos : s.bytes ≠ []) (hshort : s.bytes.length < 4) :
    (readHeader s).1 = .error .ErrUnexpectedEOF := by
  obtain ⟨htake, -⟩ := fill_bytes 4 s.pieces
  have hgot : (fill 4 s.pieces).1 = s.bytes := htake.trans (List.take_of_length_le hshort.le)
  simp only [readHeader, hgot]
  match hb : s.bytes with
  | [] => exact absurd hb hpos
  | [_] => rfl
  | [_, _] => rfl
  | [_, _, _] => rfl
  | _ :: _ :: _ :: _ :: _ =>
    rw [hb] at hshort
    simp only [List.length_cons] at hshort
    omega

theorem readHeader_nil {s : Stream UInt8} (h : s.bytes = []) : (readHeader s).1 = .error .EOF := by
  obtain ⟨htake, -⟩ := fill_bytes 4 s.pieces
  have hgot : (fill 4 s.pieces).1 = [] := htake.trans (by rw [show s.pieces.flatten = [] from h, List.take_nil])
  simp only [readHeader, hgot]

/-! Chunks. -/

/-- A buffer that is long enough for any rest of a chunk, or known to be shorter: its length as a 32-bit number is its
length, or is more than a chunk has. -/
def Sound (size : ℕ) : Prop := size < 2 ^ 32 ∨ chunkSize < size % 2 ^ 32

theorem readChunk_eq {b : BodyReader} {size : ℕ} (hsound : Sound size) (hsmall : b.remaining ≤ chunkSize) :
    b.readChunk size = ((b.r.read (min b.remaining size)).data,
      if (b.r.read (min b.remaining size)).ended then some .EOF else none,
      { b with
        r := (b.r.read (min b.remaining size)).left
        remaining := b.remaining - (b.r.read (min b.remaining size)).data.length }) := by
  have hlen : (if b.remaining < size % 2 ^ 32 then b.remaining else size) = min b.remaining size := by
    have hmod : size % 2 ^ 32 ≤ size := Nat.mod_le _ _
    rcases hsound with hlt | hlong
    · rw [Nat.mod_eq_of_lt hlt]
      split_ifs <;> omega
    · rw [if_pos (hsmall.trans_lt hlong)]
      omega
  have hread := read_le (min b.remaining size) b.r
  have hbound : chunkSize < 2 ^ 32 := by decide
  simp only [BodyReader.readChunk, hlen]
  generalize b.r.read (min b.remaining size) = got at hread ⊢
  have hremaining : (b.remaining + (2 ^ 32 - got.data.length % 2 ^ 32)) % 2 ^ 32 = b.remaining - got.data.length := by
    rw [Nat.mod_eq_of_lt (a := got.data.length) (by omega)]
    omega
  rw [hremaining]

/-- A stream with the rest of a chunk in front of it, then whole chunks, and then something else. -/
structure Carries (b : BodyReader) (current : Bytes) (chunks : List Bytes) (tail : Bytes) : Prop where
  undone : b.done = false
  length : current.length = b.remaining
  small : b.remaining ≤ chunkSize
  sized : ∀ c ∈ chunks, c ≠ [] ∧ c.length ≤ chunkSize
  bytes : b.r.bytes = current ++ (chunks.flatMap encode ++ tail)

section Reading

variable {b : BodyReader} {current tail : Bytes} {chunks : List Bytes} {size : ℕ}

/-- A read within a chunk gives the front of what remains of it, and goes on in the stream. -/
theorem Carries.readChunk (h : Carries b current chunks tail) (hcurrent : current ≠ []) (htail : tail ≠ []) (hsize : 1 ≤ size)
    (hsound : Sound size) :
    ∃ data rest b', b.readChunk size = (data, none, b') ∧ current = data ++ rest ∧ Carries b' rest chunks tail ∧
      weight b'.r.pieces < weight b.r.pieces := by
  have hpos : 0 < b.remaining := h.length ▸ List.length_pos_of_ne_nil hcurrent
  have hweight : (b.r.read (min b.remaining size)).ended = false →
      weight (b.r.read (min b.remaining size)).left.pieces < weight b.r.pieces := weight_read_lt (by omega)
  have hbytes := read_bytes (min b.remaining size) b.r
  have hread := read_le (min b.remaining size) b.r
  have hended : (b.r.read (min b.remaining size)).ended = true → (b.r.read (min b.remaining size)).left.bytes = [] := left_of_ended
  rw [readChunk_eq hsound h.small]
  generalize b.r.read (min b.remaining size) = got at hweight hbytes hread hended
  have hdata : got.data.length ≤ current.length := by
    rw [h.length]
    omega
  obtain ⟨rest, hrest, hleft⟩ : ∃ rest, current = got.data ++ rest ∧ got.left.bytes = rest ++ (chunks.flatMap encode ++ tail) := by
    rw [h.bytes] at hbytes
    obtain ⟨rest, hcurrent, hleft⟩ | ⟨more, hmore, htail⟩ := List.append_eq_append_iff.1 hbytes
    · exact ⟨rest, hcurrent, hleft⟩
    · obtain rfl : more = [] := by
        rw [hmore, List.length_append] at hdata
        exact List.eq_nil_of_length_eq_zero (by omega)
      exact ⟨[], by rw [hmore]; simp, by simpa using htail.symm⟩
  -- something follows the chunk, so that the end is not reported with it
  have hgoes : got.ended = false := by
    refine Bool.of_not_eq_true fun hend => ?_
    rw [hleft] at hended
    simp [htail] at hended
    exact absurd hend (by simp [hended])
  refine ⟨got.data, rest, ⟨got.left, b.remaining - got.data.length, b.done⟩, by rw [hgoes]; rfl, hrest,
    ⟨h.undone, ?_, ?_, h.sized, hleft⟩, hweight hgoes⟩
  · rw [← h.length, hrest, List.length_append, Nat.add_sub_cancel_left]
  · exact (Nat.sub_le _ _).trans h.small

/-- As long as there is something of the body left, a read gives the front of it without an error. -/
theorem Carries.read (h : Carries b current chunks tail) (hmore : current ++ chunks.flatten ≠ []) (htail : tail ≠ []) (hsize : 1 ≤ size)
    (hsound : Sound size) :
    ∃ data rest chunks' b', b.read size = (data, none, b') ∧ current ++ chunks.flatten = data ++ (rest ++ chunks'.flatten) ∧
      Carries b' rest chunks' tail ∧ weight b'.r.pieces < weight b.r.pieces := by
  by_cases hcurrent : current = []
  · -- between chunks: the header of the next one is read first
    obtain rfl := hcurrent
    have hzero : b.remaining = 0 := h.length.symm
    cases chunks with
    | nil => exact absurd rfl hmore
    | cons c chunks =>
      obtain ⟨⟨hne, hmax⟩, hsized⟩ := List.forall_mem_cons.1 h.sized
      have hbytes : b.r.bytes = header c.length ++ (c ++ (chunks.flatMap encode ++ tail)) := by
        rw [h.bytes, List.nil_append, List.flatMap_cons, encode, List.append_assoc, List.append_assoc]
      obtain ⟨r, hheader, hr, hweight⟩ := readHeader_ok (hmax.trans_lt (by decide)) hbytes
      have hchunk : c.length ≤ maxChunk := hmax.trans (by decide)
      have hread : b.read size = BodyReader.readChunk size { b with r, remaining := c.length } := by
        rw [BodyReader.read, h.undone, if_neg Bool.false_ne_true, if_pos hzero, hheader]
        simp [hne, Nat.not_lt.2 hchunk]
      have hcarries : Carries { b with r, remaining := c.length } c chunks tail := ⟨h.undone, rfl, hmax, hsized, hr⟩
      obtain ⟨data, rest, b', hrest, rfl, hcarries', hlt⟩ := hcarries.readChunk hne htail hsize hsound
      exact ⟨data, rest, chunks, b', hread.trans hrest, by simp, hcarries', hlt.trans_le hweight⟩
  · have hne : ¬ b.remaining = 0 := by
      rw [← h.length]
      exact (List.length_pos_of_ne_nil hcurrent).ne'
    obtain ⟨data, rest, b', hchunk, rfl, hcarries', hlt⟩ := h.readChunk hcurrent htail hsize hsound
    refine ⟨data, rest, chunks, b', ?_, by simp, hcarries', hlt⟩
    rw [BodyReader.read, h.undone, if_neg Bool.false_ne_true, if_neg hne, hchunk]

theorem Carries.readAll (h : Carries b current chunks tail) (htail : tail ≠ []) {sizes : ℕ → ℕ} (hsizes : ∀ i, 1 ≤ sizes i ∧ Sound (sizes i)) :
    ∃ n b', Carries b' [] [] tail ∧ ∀ m, Body.readAll sizes (n + m) b =
      (Body.readAll (fun i => sizes (i + n)) m b').map fun rest => (current ++ chunks.flatten ++ rest.1, rest.2) := by
  induction hw : weight b.r.pieces using Nat.strong_induction_on generalizing b current chunks sizes with
  | _ w ih =>
    by_cases hmore : current ++ chunks.flatten = []
    · obtain ⟨rfl, hchunks⟩ := List.append_eq_nil_iff.1 hmore
      have hnone : chunks = [] := by
        cases chunks with
        | nil => rfl
        | cons c chunks => exact absurd (List.flatten_eq_nil_iff.1 hchunks c List.mem_cons_self) (h.sized c List.mem_cons_self).1
      subst hnone
      exact ⟨0, b, h, fun m => by simp⟩
    · obtain ⟨data, rest, chunks', b', hread, hdata, hcarries, hlt⟩ := h.read hmore htail (hsizes 0).1 (hsizes 0).2
      obtain ⟨n, b'', hcarries'', hrest⟩ := ih _ (hw ▸ hlt) hcarries (fun i => hsizes (i + 1)) rfl
      refine ⟨n + 1, b'', hcarries'', fun m => ?_⟩
      rw [show n + 1 + m = n + m + 1 by omega, Body.readAll, hread]
      simp only [hrest m, Option.map_map, hdata]
      congr 1
      funext x
      simp

end Reading

variable {stream : Stream UInt8}

theorem carries_start {chunks : List Bytes} {tail : Bytes} (hsized : ∀ c ∈ chunks, c ≠ [] ∧ c.length ≤ chunkSize)
    (h : stream.bytes = chunks.flatMap encode ++ tail) : Carries (NewBodyReader stream) [] chunks tail :=
  ⟨rfl, rfl, Nat.zero_le _, hsized, h⟩

/-! A body that is written to its end. -/

/-- What a consumer is owed: the bytes of the source and then the end, again and again, with what follows the body left in the stream. -/
def ReadBack (sizes : ℕ → ℕ) (reads : List SourceRead) (stream : Stream UInt8) (following : Bytes) : Prop :=
  ∃ n b, readAll sizes n (NewBodyReader stream) = some (delivered reads, .EOF, b) ∧ b.r.bytes = following ∧
    ∀ size, b.read size = ([], some .EOF, b)

theorem readBack_of_sound {sizes : ℕ → ℕ} (hsizes : ∀ i, 1 ≤ sizes i ∧ Sound (sizes i))
    (hended : (WriteBody reads).2 = true) {following : Bytes}
    (hstream : stream.bytes = (WriteBody reads).1 ++ following) : ReadBack sizes reads stream following := by
  rw [WriteBody_eq hended, List.append_assoc] at hstream
  have hcarries := carries_start (chunksOf_sized reads) hstream
  obtain ⟨n, b, hb, hread⟩ := hcarries.readAll (by simp [header]) hsizes
  obtain ⟨r, hheader, hr, -⟩ := readHeader_ok (by decide) (hb.bytes : b.r.bytes = header 0 ++ following)
  refine ⟨n + 1, { b with r, done := true }, ?_, hr, fun size => rfl⟩
  have hzero : b.remaining = 0 := hb.length.symm
  rw [hread 1, readAll, BodyReader.read, hb.undone, if_neg Bool.false_ne_true, if_pos hzero, hheader]
  simp [delivered_eq]

/-- A header in a piece of its own: the read goes on with the piece behind it. -/
theorem read_piece {n size : ℕ} (hpos : 0 < n) (hn : n ≤ chunkSize) (piece : Bytes) (pieces : List Bytes) :
    (NewBodyReader ⟨header n :: piece :: pieces, false⟩).read size = BodyReader.readChunk size ⟨⟨piece :: pieces, false⟩, n, false⟩ := by
  have hbound : chunkSize < 2 ^ 32 ∧ chunkSize ≤ maxChunk := by decide
  have hheader : readHeader ⟨header n :: piece :: pieces, false⟩ = (.ok n, ⟨piece :: pieces, false⟩) := by
    have hfill : fill 4 (header n :: piece :: pieces) = (header n, piece :: pieces) := by
      simp [fill, header]
    simp only [readHeader, hfill]
    simp only [header]
    rw [lengthOf_header (hn.trans_lt hbound.1)]
  simp [BodyReader.read, NewBodyReader, hheader, hpos.ne', Nat.not_lt.2 (hn.trans hbound.2)]

/-- A buffer that is not sound can be met by a chunk behind which it reads on. -/
theorem overrun {sizes : ℕ → ℕ} (hpos : ∀ i, 1 ≤ sizes i) {i : ℕ} (hi : ¬ Sound (sizes i)) :
    ∃ (reads : List SourceRead) (pieces : List Bytes), (WriteBody reads).2 = true ∧ pieces.flatten = (WriteBody reads).1 ∧
      ∀ n data e b, readAll sizes n (NewBodyReader ⟨pieces, false⟩) = some (data, e, b) → (delivered reads).length < data.length := by
  induction i generalizing sizes with
  | zero =>
    -- one full chunk, and the header that ends the body comes with it
    have hlong : 2 ^ 32 ≤ sizes 0 ∧ sizes 0 % 2 ^ 32 ≤ chunkSize := by
      simpa [Sound] using hi
    generalize hchunk : List.replicate chunkSize (0 : UInt8) = chunk
    have hlength : chunk.length = chunkSize := by rw [← hchunk, List.length_replicate]
    have hsome : chunk ≠ [] := List.ne_nil_of_length_pos (by rw [hlength]; decide)
    refine ⟨[⟨chunk, hlength.le, some .EOF⟩], [header chunkSize, chunk ++ header 0], rfl, ?_, ?_⟩
    · simp [WriteBody, hsome, encode, hlength]
    · intro n data e b hread
      have hfirst : (NewBodyReader ⟨[header chunkSize, chunk ++ header 0], false⟩).read (sizes 0) =
          BodyReader.readChunk (sizes 0) ⟨⟨[chunk ++ header 0], false⟩, chunkSize, false⟩ :=
        read_piece (by decide) le_rfl _ _
      have hall : (chunk ++ header 0).length ≤ sizes 0 := by
        rw [List.length_append, hlength]
        exact (by decide : chunkSize + (header 0).length ≤ 2 ^ 32).trans hlong.1
      cases n with
      | zero => cases hread
      | succ n =>
        rw [readAll, hfirst, BodyReader.readChunk, if_neg (Nat.not_lt.2 hlong.2)] at hread
        simp only [Stream.read, if_pos hall, List.isEmpty_nil, Bool.and_false, Bool.false_eq_true, if_false, Option.map_eq_some_iff] at hread
        obtain ⟨rest, -, hdata⟩ := hread
        obtain rfl : chunk ++ header 0 ++ rest.1 = data := (Prod.ext_iff.1 hdata).1
        simp [delivered, header]
  | succ i ih =>
    -- a chunk of one byte keeps the reads before the long one busy
    obtain ⟨reads, pieces, hended, hpieces, hover⟩ := ih (fun j => hpos (j + 1)) hi
    refine ⟨⟨[7], by decide, none⟩ :: reads, header 1 :: [7] :: pieces, ?_, ?_, ?_⟩
    · simp [WriteBody, hended]
    · simp [WriteBody, hpieces, encode]
    · intro n data e b hread
      have hlen : ([7] : Bytes).length ≤ if 1 < sizes 0 % 2 ^ 32 then 1 else sizes 0 := by
        split_ifs
        · exact le_rfl
        · exact hpos 0
      cases n with
      | zero => cases hread
      | succ n =>
        rw [readAll, read_piece Nat.one_pos (by decide), BodyReader.readChunk] at hread
        simp only [Stream.read, if_pos hlen, Bool.and_false, Bool.false_eq_true, if_false, Option.map_eq_some_iff] at hread
        obtain ⟨rest, hrest, hdata⟩ := hread
        obtain rfl : [7] ++ rest.1 = data := (Prod.ext_iff.1 hdata).1
        have hless := hover n rest.1 rest.2.1 rest.2.2 hrest
        simpa [delivered] using hless

/-- Whatever the consumer's buffers: every body that is written, in whatever pieces the stream arrives and whatever follows it, is read
back if and only if each buffer is shorter than 4 GiB or its length as a 32-bit number is more than a chunk has. -/
theorem body_read_back (sizes : ℕ → ℕ) (hpos : ∀ i, 1 ≤ sizes i) :
    (∀ reads stream following, (WriteBody reads).2 = true → stream.bytes = (WriteBody reads).1 ++ following →
      ReadBack sizes reads stream following) ↔ ∀ i, Sound (sizes i) := by
  constructor
  · intro hback i
    by_contra hi
    obtain ⟨reads, pieces, hended, hpieces, hover⟩ := overrun hpos hi
    obtain ⟨n, b, hread, -⟩ := hback reads ⟨pieces, false⟩ [] hended (hpieces.trans (List.append_nil _).symm)
    exact lt_irrefl _ (hover n _ _ b hread)
  · intro hsound reads stream following hended hstream
    exact readBack_of_sound (fun i => ⟨hpos i, hsound i⟩) hended hstream

def oneByteBody : List SourceRead := [⟨[7], by decide, some .EOF⟩]

/-- With buffers of one byte it is read back. -/
theorem body_read_back_one_byte :
    (WriteBody oneByteBody).2 = true ∧ ReadBack (fun _ => 1) oneByteBody ⟨[(WriteBody oneByteBody).1], false⟩ [] :=
  ⟨rfl, (body_read_back (fun _ => 1) fun _ => le_rfl).2 (fun _ => Or.inl (by decide)) oneByteBody _ [] rfl rfl⟩

/-- Into a buffer of 4 GiB the header that ends the body is read as if it were part of it. -/
theorem huge_buffer_overruns :
    let reads : List SourceRead := [⟨[7], by decide, some .EOF⟩]
    (readAll (fun _ => 2 ^ 32) 2 (NewBodyReader ⟨[(WriteBody reads).1], false⟩)).map (·.1) = some [7, 0, 0, 0, 0] ∧
      delivered reads = [7] := by
  decide +kernel

/-! A body that is cut off. -/

/-- The bytes of the body among the first bytes that its chunks are written as. -/
def arrived : List Bytes → ℕ → Bytes
  | [], _ => []
  | c :: chunks, n => c.take (n - 4) ++ arrived chunks (n - (4 + c.length))

/-- The first bytes end after one to three bytes of a header. -/
def cutInHeader : List Bytes → ℕ → Bool
  | [], n => 0 < n && n < 4
  | c :: chunks, n => (0 < n && n < 4) || cutInHeader chunks (n - (4 + c.length))

theorem arrived_of_le {n : ℕ} (hn : n ≤ 4) (chunks : List Bytes) : arrived chunks n = [] := by
  induction chunks generalizing n with
  | nil => rfl
  | cons c chunks ih => rw [arrived, Nat.sub_eq_zero_of_le hn, List.take_zero, ih (by omega), List.append_nil]

theorem cutInHeader_zero (chunks : List Bytes) : cutInHeader chunks 0 = false := by
  induction chunks with
  | nil => rfl
  | cons c chunks ih => rw [cutInHeader, Nat.zero_sub, ih]; rfl

theorem cutInHeader_of_lt {n : ℕ} (hpos : 0 < n) (hn : n < 4) (chunks : List Bytes) : cutInHeader chunks n = true := by
  cases chunks with
  | nil => simp [cutInHeader, hpos, hn]
  | cons c chunks => simp [cutInHeader, hpos, hn]

theorem encode_length (c : Bytes) : (encode c).length = 4 + c.length := by
  rw [encode, List.length_append]
  rfl

theorem cut_append (whole chunks : List Bytes) (n : ℕ) :
    arrived (whole ++ chunks) ((whole.flatMap encode).length + n) = whole.flatten ++ arrived chunks n ∧
      cutInHeader (whole ++ chunks) ((whole.flatMap encode).length + n) = cutInHeader chunks n := by
  induction whole with
  | nil => simp
  | cons c whole ih =>
    have hrest : ((c :: whole).flatMap encode).length + n - (4 + c.length) = (whole.flatMap encode).length + n := by
      rw [List.flatMap_cons, List.length_append, encode_length]
      omega
    have hlong : 4 + c.length ≤ ((c :: whole).flatMap encode).length + n := by
      rw [List.flatMap_cons, List.length_append, encode_length]
      omega
    rw [List.cons_append, arrived, cutInHeader, hrest, ih.1, ih.2, List.take_of_length_le (by omega), List.flatten_cons,
      List.append_assoc]
    refine ⟨rfl, ?_⟩
    rw [decide_eq_false (by omega : ¬ ((c :: whole).flatMap encode).length + n < 4), Bool.and_false, Bool.false_or]

/-- Where a body can be cut off: before it begins, in a header, or in the bytes of a chunk or right behind them. -/
theorem cut_cases {chunks : List Bytes} {p : Bytes} (hp : p <+: chunks.flatMap encode ++ header 0)
    (hproper : p ≠ chunks.flatMap encode ++ header 0) :
    p = [] ∨ (∃ whole rest part, chunks = whole ++ rest ∧ p = whole.flatMap encode ++ part ∧ part ≠ [] ∧ part.length < 4) ∨
      ∃ whole c rest part, chunks = whole ++ c :: rest ∧ p = whole.flatMap encode ++ (header c.length ++ part) ∧ part <+: c := by
  by_cases hnil : p = []
  · exact Or.inl hnil
  refine Or.inr ?_
  induction chunks generalizing p with
  | nil =>
    have hlt : p.length < 4 := lt_of_le_of_ne hp.length_le fun h => hproper (hp.eq_of_length h)
    exact Or.inl ⟨[], [], p, rfl, rfl, hnil, hlt⟩
  | cons c chunks ih =>
    rw [List.flatMap_cons, List.append_assoc] at hp hproper
    obtain ⟨t, ht⟩ := hp
    rw [encode, List.append_assoc] at ht hproper
    rcases List.append_eq_append_iff.1 ht with ⟨short, hheader, -⟩ | ⟨more, rfl, hmore⟩
    · by_cases hshort : short = []
      · -- just the header
        rw [hshort, List.append_nil] at hheader
        exact Or.inr ⟨[], c, chunks, [], rfl, by rw [hheader]; simp, List.nil_prefix⟩
      · have hlength : p.length + short.length = 4 := by
          rw [← List.length_append, ← hheader]
          rfl
        have hpos := List.length_pos_of_ne_nil hshort
        exact Or.inl ⟨[], c :: chunks, p, rfl, rfl, hnil, by omega⟩
    · rcases List.append_eq_append_iff.1 hmore.symm with ⟨left, hleft, -⟩ | ⟨next, rfl, hnext⟩
      · exact Or.inr ⟨[], c, chunks, more, rfl, rfl, left, hleft.symm⟩
      · by_cases hlast : next = []
        · exact Or.inr ⟨[], c, chunks, c, rfl, by rw [hlast, List.append_nil]; rfl, List.prefix_refl c⟩
        · -- the cut is in a later chunk
          have hproper' : next ≠ chunks.flatMap encode ++ header 0 := fun h => hproper (by rw [h])
          rcases ih ⟨t, hnext.symm⟩ hproper' hlast with ⟨whole, rest, part, rfl, rfl, hpart⟩ | ⟨whole, c', rest, part, rfl, rfl, hpart⟩
          · exact Or.inl ⟨c :: whole, rest, part, rfl, by simp [encode], hpart⟩
          · exact Or.inr ⟨c :: whole, c', rest, part, rfl, by simp [encode], hpart⟩

section CutOff

variable {sizes : ℕ → ℕ}

/-- A stream that ends within a chunk, or right behind it, is read to its end without an error. -/
theorem readAll_rest (hsizes : ∀ i, 1 ≤ sizes i ∧ Sound (sizes i)) {b : BodyReader} (hundone : b.done = false)
    (hbytes : b.r.bytes.length ≤ b.remaining) (hsmall : b.remaining ≤ chunkSize) :
    ∃ n b', readAll sizes n b = some (b.r.bytes, .EOF, b') := by
  induction hw : weight b.r.pieces using Nat.strong_induction_on generalizing b sizes with
  | _ w ih =>
    by_cases hzero : b.remaining = 0
    · have hnone : b.r.bytes = [] := List.eq_nil_of_length_eq_zero (by omega)
      have hheader : readHeader b.r = (.error .EOF, (readHeader b.r).2) := Prod.ext (readHeader_nil hnone) rfl
      refine ⟨1, { b with r := (readHeader b.r).2 }, ?_⟩
      rw [readAll, BodyReader.read, hundone, if_neg Bool.false_ne_true, if_pos hzero, hheader, hnone]
    · have hread : b.read (sizes 0) = b.readChunk (sizes 0) := by
        rw [BodyReader.read, hundone, if_neg Bool.false_ne_true, if_neg hzero]
      rw [readChunk_eq (hsizes 0).2 hsmall] at hread
      have hsize : 1 ≤ min b.remaining (sizes 0) := le_min (Nat.pos_of_ne_zero hzero) (hsizes 0).1
      have hdata := read_bytes (min b.remaining (sizes 0)) b.r
      cases hended : (b.r.read (min b.remaining (sizes 0))).ended with
      | true =>
        rw [left_of_ended hended, List.append_nil] at hdata
        rw [hended, hdata] at hread
        exact ⟨1, _, by rw [readAll, hread]; rfl⟩
      | false =>
        have hlt := weight_read_lt hsize hended
        have hlength := congrArg List.length hdata
        rw [List.length_append] at hlength
        generalize b.r.read (min b.remaining (sizes 0)) = got at hread hdata hended hlt hlength
        obtain ⟨n, b', hrest⟩ := ih _ (hw ▸ hlt) (fun i => hsizes (i + 1))
          (b := { b with r := got.left, remaining := b.remaining - got.data.length }) hundone (by simp only; omega)
          ((Nat.sub_le _ _).trans hsmall) rfl
        refine ⟨n + 1, b', ?_⟩
        rw [hended] at hread
        rw [readAll, hread]
        simp only [Bool.false_eq_true, if_false, hrest, Option.map_some, hdata]

theorem readAll_in_header (hsizes : ∀ i, 1 ≤ sizes i ∧ Sound (sizes i)) {chunks : List Bytes} {part : Bytes}
    (hsized : ∀ c ∈ chunks, c ≠ [] ∧ c.length ≤ chunkSize) (hpart : part ≠ []) (hshort : part.length < 4) {stream : Stream UInt8}
    (hstream : stream.bytes = chunks.flatMap encode ++ part) :
    ∃ n b, readAll sizes n (NewBodyReader stream) = some (chunks.flatten, .ErrUnexpectedEOF, b) := by
  obtain ⟨n, b, hb, hread⟩ := (carries_start hsized hstream).readAll hpart hsizes
  have hleft : b.r.bytes = part := hb.bytes
  have hheader : readHeader b.r = (.error .ErrUnexpectedEOF, (readHeader b.r).2) :=
    Prod.ext (readHeader_short (hleft ▸ hpart) (hleft ▸ hshort)) rfl
  have hzero : b.remaining = 0 := hb.length.symm
  refine ⟨n + 1, { b with r := (readHeader b.r).2 }, ?_⟩
  rw [hread 1, readAll, BodyReader.read, hb.undone, if_neg Bool.false_ne_true, if_pos hzero, hheader]
  simp

theorem readAll_in_chunk (hsizes : ∀ i, 1 ≤ sizes i ∧ Sound (sizes i)) {chunks : List Bytes} {c part : Bytes}
    (hsized : ∀ c ∈ chunks, c ≠ [] ∧ c.length ≤ chunkSize) (hc : c ≠ [] ∧ c.length ≤ chunkSize) (hpart : part <+: c)
    {stream : Stream UInt8} (hstream : stream.bytes = chunks.flatMap encode ++ (header c.length ++ part)) :
    ∃ n b, readAll sizes n (NewBodyReader stream) = some (chunks.flatten ++ part, .EOF, b) := by
  have hbound : chunkSize < 2 ^ 32 ∧ chunkSize ≤ maxChunk := by decide
  obtain ⟨n, b, hb, hread⟩ := (carries_start hsized hstream).readAll (by simp [header]) hsizes
  obtain ⟨r, hheader, hr, -⟩ := readHeader_ok (hc.2.trans_lt hbound.1) (hb.bytes : b.r.bytes = header c.length ++ part)
  have hzero : b.remaining = 0 := hb.length.symm
  -- the read of the header goes on in the chunk, as a read with this much remaining does
  have hon : ∀ size, b.read size = BodyReader.read size { b with r, remaining := c.length } := by
    intro size
    have hpos : ¬ c.length = 0 := by simp [hc.1]
    rw [BodyReader.read, BodyReader.read, hb.undone, if_neg Bool.false_ne_true, if_neg Bool.false_ne_true, if_pos hzero, hheader,
      if_neg hpos]
    simp [hc.1, Nat.not_lt.2 (hc.2.trans hbound.2)]
  obtain ⟨m, b', hrest⟩ := readAll_rest (fun i => hsizes (i + n)) (b := { b with r, remaining := c.length }) hb.undone
    (hr ▸ hpart.length_le) hc.2
  refine ⟨n + m, b', ?_⟩
  have hsame : readAll (fun i => sizes (i + n)) m b = readAll (fun i => sizes (i + n)) m { b with r, remaining := c.length } := by
    cases m with
    | zero => rfl
    | succ m => rw [readAll, readAll, hon]
  rw [hread m, hsame, hrest, hr]
  simp

end CutOff

/-- A body that is cut off: what is read of it, and that an error is reported just where the cut is in a header. -/
theorem readAll_cut {sizes : ℕ → ℕ} (hsizes : ∀ i, 1 ≤ sizes i ∧ Sound (sizes i))
    (hended : (WriteBody reads).2 = true) {p : Bytes} (hp : p <+: (WriteBody reads).1) (hproper : p ≠ (WriteBody reads).1)
    (hstream : stream.bytes = p) :
    ∃ n err b, readAll sizes n (NewBodyReader stream) = some (arrived (chunksOf reads) p.length, err, b) ∧
      (err ≠ .EOF ↔ cutInHeader (chunksOf reads) p.length = true) := by
  rw [WriteBody_eq hended] at hp hproper
  have hsized := chunksOf_sized reads
  generalize chunksOf reads = chunks at hp hproper hsized
  rcases cut_cases hp hproper with rfl | ⟨whole, rest, part, rfl, rfl, hpart, hshort⟩ | ⟨whole, c, rest, part, rfl, rfl, hpart⟩
  · obtain ⟨n, b, hread⟩ := readAll_rest hsizes (b := NewBodyReader stream) rfl (by simp [NewBodyReader, hstream]) (Nat.zero_le _)
    refine ⟨n, .EOF, b, ?_, ?_⟩
    · rw [hread, List.length_nil, arrived_of_le (by omega)]
      exact congrArg (fun data => some (data, ReadError.EOF, b)) hstream
    · simp [cutInHeader_zero]
  · have hwhole : ∀ c ∈ whole, c ≠ [] ∧ c.length ≤ chunkSize := fun c hc => hsized c (List.mem_append_left _ hc)
    obtain ⟨n, b, hread⟩ := readAll_in_header hsizes hwhole hpart hshort hstream
    obtain ⟨harrived, hcut⟩ := cut_append whole rest part.length
    refine ⟨n, .ErrUnexpectedEOF, b, ?_, ?_⟩
    · rw [hread, List.length_append, harrived, arrived_of_le hshort.le, List.append_nil]
    · rw [List.length_append, hcut, cutInHeader_of_lt (List.length_pos_of_ne_nil hpart) hshort]
      simp
  · have hwhole : ∀ c ∈ whole, c ≠ [] ∧ c.length ≤ chunkSize := fun c hc => hsized c (List.mem_append_left _ hc)
    have hc : c ≠ [] ∧ c.length ≤ chunkSize := hsized c (by simp)
    obtain ⟨n, b, hread⟩ := readAll_in_chunk hsizes hwhole hc hpart hstream
    obtain ⟨harrived, hcut⟩ := cut_append whole (c :: rest) (4 + part.length)
    have hlength : (header c.length ++ part).length = 4 + part.length := by
      rw [List.length_append]
      rfl
    have hle := hpart.length_le
    refine ⟨n, .EOF, b, ?_, ?_⟩
    · rw [hread, List.length_append, hlength, harrived, arrived, Nat.add_sub_cancel_left, List.prefix_iff_eq_take.1 hpart |>.symm,
        arrived_of_le (by omega), List.append_nil]
    · rw [List.length_append, hlength, hcut, cutInHeader, show 4 + part.length - (4 + c.length) = 0 by omega, cutInHeader_zero]
      simp

/-! The browser. -/

theorem utf8_digits {cs : Text} (hcs : ∀ c ∈ cs, c.isDigit = true) :
    utf8 cs = (cs.map fun c => c.toNat - 48).map fun d => UInt8.ofNat (48 + d) := by
  induction cs with
  | nil => rfl
  | cons c cs ih =>
    obtain ⟨hlow, hhigh⟩ : 48 ≤ c.toNat ∧ c.toNat ≤ 57 := by
      simpa [Char.isDigit, UInt32.le_iff_toNat_le] using hcs c List.mem_cons_self
    have hrune : encodeRune c.toNat = [UInt8.ofNat (48 + (c.toNat - 48))] := by
      rw [encodeRune, if_pos (by omega), Nat.add_sub_cancel' hlow]
    have hrest : utf8 cs = _ := ih fun x hx => hcs x (List.mem_cons_of_mem c hx)
    rw [utf8, List.flatMap_cons, hrune]
    exact congrArg (_ :: ·) hrest

/-- A length that was written is read back, if it is one that can be declared. -/
theorem parseLength_toString (n : ℕ) : parseLength (toString n).toList = if n < 2 ^ 63 then some n else none := by
  have hdigit : ∀ c ∈ (toString n).toList, c.isDigit = true := by
    intro c hc
    exact Nat.isDigit_of_mem_toDigits (by decide) le_rfl (by simpa using hc)
  have hne : (toString n).toList ≠ [] := by simp [Nat.toDigits_ne_nil]
  have hds : ∀ d ∈ (toString n).toList.map fun c => c.toNat - 48, d < 10 := by
    intro d hd
    obtain ⟨c, hc, rfl⟩ := List.mem_map.1 hd
    have hrange : 48 ≤ c.toNat ∧ c.toNat ≤ 57 := by
      simpa [Char.isDigit, UInt32.le_iff_toNat_le] using hdigit c hc
    omega
  have hvalue : ((toString n).toList.map fun c => c.toNat - 48).foldl (fun m d => m * 10 + d) 0 = n := by
    have hread : Nat.ofDigitChars 10 (Nat.toDigits 10 n) 0 = n := Nat.ofDigitChars_toDigits (by decide) le_rfl
    rw [List.foldl_map]
    simpa [Nat.ofDigitChars, mul_comm] using hread
  rw [parseLength, utf8_digits hdigit, Guac.atoi_digits (mt List.map_eq_nil_iff.1 hne) hds, hvalue]
  split_ifs
  · rfl
  · rfl

theorem receivedWhole_rewritten {uni : Unicode} {pol : Policy} {w : List Field} {resp : Reply}
    (h : ¬ Streamed uni pol resp.header resp.body.length) : receivedWhole (writeProxyResponse uni pol w resp) = true := by
  simp only [Streamed, not_or, Bool.not_eq_false, Bool.not_eq_true, Nat.not_lt] at h
  obtain ⟨hscripts, hhtml, hplain, hsize⟩ := h
  have hlength := (writeProxyResponse_rewritten (w := w) hhtml hplain hsize hscripts).2
  rw [receivedWhole, contentLength, hlength, List.headD_cons, parseLength_toString]
  split_ifs
  · simp
  · rfl

theorem receivedWhole_streamed {uni : Unicode} {pol : Policy} {w : List Field} {resp : Reply}
    (h : Streamed uni pol resp.header resp.body.length) :
    receivedWhole (writeProxyResponse uni pol w resp) = false ↔ ∃ n, contentLength w = some n ∧ resp.body.length < n := by
  rw [writeProxyResponse_streamed h, receivedWhole]
  cases contentLength w with
  | none => simp
  | some n => simp

/-- For every proper first part of a body that was written, in whatever pieces it arrives: it is reported as an error, and so never
complete for the upstream, if and only if the cut is in a header. For the browser the response must besides go out as it came and
declare more bytes than arrived. -/
theorem cut_body_fails (reads : List SourceRead) (hended : (WriteBody reads).2 = true) (p : Bytes) (hp : p <+: (WriteBody reads).1)
    (hproper : p ≠ (WriteBody reads).1) (stream : Stream UInt8) (hstream : stream.bytes = p) (sizes : ℕ → ℕ)
    (hsizes : ∀ i, 1 ≤ sizes i ∧ Sound (sizes i)) :
    ∃ n data err b, readAll sizes n (NewBodyReader stream) = some (data, err, b) ∧ data = arrived (chunksOf reads) p.length ∧
      (∀ req, (err ≠ .EOF ∧ sentWhole req data err = false) ↔ cutInHeader (chunksOf reads) p.length = true) ∧
      ∀ uni pol w status header,
        (err ≠ .EOF ∧ receivedWhole (writeProxyResponse uni pol w ⟨status, header, data⟩) = false) ↔
          cutInHeader (chunksOf reads) p.length = true ∧ Streamed uni pol header (arrived (chunksOf reads) p.length).length ∧
            ∃ n, contentLength w = some n ∧ (arrived (chunksOf reads) p.length).length < n := by
  obtain ⟨n, err, b, hread, herr⟩ := readAll_cut hsizes hended hp hproper hstream
  refine ⟨n, _, err, b, hread, rfl, ?_, ?_⟩
  · intro req
    rw [← herr]
    refine ⟨And.left, fun h => ⟨h, ?_⟩⟩
    simp [sentWhole, h]
  · intro uni pol w status header
    rw [herr]
    refine and_congr_right fun _ => ?_
    generalize arrived (chunksOf reads) p.length = data
    by_cases h : Streamed uni pol header data.length
    · rw [receivedWhole_streamed h, and_iff_right h]
    · have hwhole : receivedWhole (writeProxyResponse uni pol w ⟨status, header, data⟩) = true := receivedWhole_rewritten h
      simp [hwhole, h]

/-- The second header of a body of two chunks is cut off: the first chunk is read, and then there is an error. -/
theorem cut_body_fails_second_header :
    ∃ n data err b, readAll (fun _ => 512) n (NewBodyReader ⟨[[0, 0, 0], [1, 7, 0]], false⟩) = some (data, err, b) ∧ data = [7] ∧
      err ≠ .EOF ∧ ∀ req, sentWhole req data err = false := by
  obtain ⟨n, data, err, b, hread, hdata, hsent, -⟩ := cut_body_fails [⟨[7], by decide, none⟩, ⟨[8], by decide, some .EOF⟩] rfl
    [0, 0, 0, 1, 7, 0] (by decide +kernel) (by decide +kernel) ⟨[[0, 0, 0], [1, 7, 0]], false⟩ rfl (fun _ => 512)
    fun _ => ⟨by decide, Or.inl (by decide)⟩
  have hcut := fun req => (hsent req).2 (by decide +kernel)
  exact ⟨n, data, err, b, hread, hdata.trans (by decide +kernel), (hcut []).1, fun req => (hcut req).2⟩

/-- Cut off between two chunks, or in the bytes of one, the same body ends as if it were whole: the upstream and the browser get
it so. Where a page is rewritten the browser does even after an error. -/
theorem cut_body_passes :
    let reads : List SourceRead := [⟨[7, 8], by decide, none⟩, ⟨[9], by decide, some .EOF⟩]
    let cut (k : ℕ) := readAll (fun _ => 512) 9 (NewBodyReader ⟨[(WriteBody reads).1.take k], false⟩)
    ((cut 0).map fun got => (got.1, got.2.1)) = some ([], .EOF) ∧
    ((cut 5).map fun got => (got.1, got.2.1)) = some ([7], .EOF) ∧
    ((cut 6).map fun got => (got.1, got.2.1)) = some ([7, 8], .EOF) ∧
    sentWhole [] [7, 8] .EOF = true ∧
    receivedWhole (writeProxyResponse asciiTables ⟨false, [], false, false, []⟩ [] ⟨200, [], [7, 8]⟩) = true ∧
    ((cut 8).map fun got => (got.1, got.2.1)) = some ([7, 8], .ErrUnexpectedEOF) ∧
    receivedWhole (writeProxyResponse asciiTables ⟨true, [], false, false, []⟩ [("Content-Length".toList, "3".toList)]
      ⟨200, [("Content-Type".toList, ["text/html".toList])], [7, 8]⟩) = true := by
  decide +kernel

end Captivo.Body
