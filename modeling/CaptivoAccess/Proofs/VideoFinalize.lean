import CaptivoAccess.Sanity.RecRead
import CaptivoAccess.Spec.KasmRecord

/-! What a recording's video stream holds once the finalized file was sent. Its chunks
take the place of the interim chunks with the same numbers, and no other interim chunk
goes: those numbered beyond the file's last chunk stay behind it. -/

namespace Captivo.Video

open Lib.Utf8 Lib.FileTree Captivo.RecStore

variable {v : VideoStream}

/-- A chunk that is sent is stored or is not; it is stored where the sender is told so. -/
theorem holds_send {t : Tree} {chunks : ℕ → Option Bytes} (h : Holds v.cipher t v.dir chunks) {seq : ℕ} (hseq : seq < 2 ^ 63)
    (data : Bytes) (transit : Transit) :
    ∃ chunks', Holds v.cipher (send v t seq data transit).1 v.dir chunks' ∧
      (chunks' = Function.update chunks seq (some data) ∨ chunks' = chunks ∧ (send v t seq data transit).2 ≠ none) := by
  cases transit with
  | lost => exact ⟨chunks, h, Or.inr ⟨rfl, by simp [send]⟩⟩
  | unsupported => exact ⟨chunks, h, Or.inr ⟨rfl, by simp [send]⟩⟩
  | carried nonce now answered =>
    have happ := h.append v.accepted nonce now hseq data
    refine ⟨_, happ, ?_⟩
    cases hok : (append (v.cipher.sealWith nonce) now v.root t ⟨v.tenantID, v.key, ascii "video"⟩ seq data).2.isOk with
    | true => exact Or.inl rfl
    | false => exact Or.inr ⟨rfl, by simp [send, VideoStream.stream, hok]⟩

/-! The interim chunks. -/

/-- While the session lasts, the chunks in the store have numbers that were used up, and none is empty. -/
def Interim (v : VideoStream) (s : Tree × KasmRecWriter) : Prop :=
  ∃ chunks, Holds v.cipher s.1 v.dir chunks ∧ ∀ seq plain, chunks seq = some plain → seq < s.2.seq ∧ plain ≠ []

variable {s : Tree × KasmRecWriter}

theorem interim_flush (h : Interim v s) (hseq : s.2.seq < 2 ^ 63) (now : ℤ) (transit : Transit) :
    Interim v (flush v now transit s) ∧ (flush v now transit s).2.seq ≤ s.2.seq + 1 := by
  unfold flush
  split_ifs with hbuf
  · exact ⟨h, Nat.le_succ _⟩
  · obtain ⟨chunks, hholds, hnum⟩ := h
    obtain ⟨chunks', hholds', hcase⟩ := holds_send hholds hseq s.2.buf transit
    have hold : ∀ seq plain, chunks seq = some plain → seq < s.2.seq + 1 ∧ plain ≠ [] :=
      fun seq plain hc => ⟨Nat.lt_succ_of_lt (hnum seq plain hc).1, (hnum seq plain hc).2⟩
    refine ⟨⟨chunks', hholds', fun seq plain hc => ?_⟩, le_rfl⟩
    rcases hcase with rfl | ⟨rfl, -⟩
    · by_cases he : seq = s.2.seq
      · rw [he, Function.update_self, Option.some.injEq] at hc
        exact ⟨he ▸ Nat.lt_succ_self _, hc ▸ hbuf⟩
      · rw [Function.update_of_ne he] at hc
        exact hold seq plain hc
    · exact hold seq plain hc

theorem interim_write (h : Interim v s) (hseq : s.2.seq < 2 ^ 63) (capBytes : ℕ)
    (p : Piece 65536) : Interim v (write v capBytes s p) ∧ (write v capBytes s p).2.seq ≤ s.2.seq + 1 := by
  -- the buffer, the total and the stop flag play no part in what is stored
  have hflush : ∀ w : KasmRecWriter, w.seq = s.2.seq →
      Interim v (flush v p.now p.transit (s.1, w)) ∧ (flush v p.now p.transit (s.1, w)).2.seq ≤ s.2.seq + 1 := by
    intro w hw
    obtain ⟨chunks, hholds, hnum⟩ := h
    rw [← hw] at hnum hseq ⊢
    have hint : Interim v (s.1, w) := ⟨chunks, hholds, hnum⟩
    exact interim_flush hint hseq p.now p.transit
  unfold write
  split
  · exact ⟨h, Nat.le_succ _⟩
  · split
    · exact hflush _ rfl
    · simp only
      split
      · exact hflush _ rfl
      · exact ⟨h, Nat.le_succ _⟩

theorem interim_reads (h : Interim v s) (capBytes : ℕ) (reads : List (Piece 65536))
    (hlen : s.2.seq + reads.length < 2 ^ 63) :
    Interim v (reads.foldl (fun s p => if p.data = [] then s else write v capBytes s p) s) ∧
      (reads.foldl (fun s p => if p.data = [] then s else write v capBytes s p) s).2.seq ≤ s.2.seq + reads.length := by
  induction reads generalizing s with
  | nil => exact ⟨h, le_rfl⟩
  | cons p reads ih =>
    rw [List.length_cons] at hlen ⊢
    rw [List.foldl_cons]
    split_ifs with hp
    · obtain ⟨hint, hle⟩ := ih h (by omega)
      exact ⟨hint, by omega⟩
    · obtain ⟨hint, hle⟩ := interim_write h (by omega) capBytes p
      obtain ⟨hint', hle'⟩ := ih hint (by omega)
      exact ⟨hint', by omega⟩

theorem interim_relay {t : Tree} (hnew : t.missing v.dir = true) (capBytes : ℕ) (start : ℤ) (reads : List (Piece 65536))
    (hreads : reads.length < 2 ^ 63) (closed : ℤ) (last : Transit) :
    Interim v (relay v capBytes t start reads closed last) := by
  have hstart : Interim v (t, newKasmRecWriter start) := ⟨_, holds_of_missing v.cipher hnew, fun _ _ hc => nomatch hc⟩
  obtain ⟨hint, hle⟩ := interim_reads hstart capBytes reads (by simpa [newKasmRecWriter] using hreads)
  refine (interim_flush hint (hle.trans_lt ?_) closed last).1
  simpa [newKasmRecWriter] using hreads

/-! The finalized file. -/

/-- The chunks of the finalized file: a read that brings nothing is no chunk. -/
def fileChunks (reads : List (Piece 262144)) : List Bytes := (reads.map Piece.data).filter (· ≠ [])

/-- `new` written over `chunks` from `seq` on. -/
def overlay (chunks : ℕ → Option Bytes) (seq : ℕ) (new : List Bytes) (i : ℕ) : Option Bytes :=
  if i < seq then chunks i else (new[i - seq]?).or (chunks i)

variable (chunks : ℕ → Option Bytes)

theorem overlay_nil (seq : ℕ) : overlay chunks seq [] = chunks := by
  funext i
  simp [overlay]

theorem overlay_cons (seq : ℕ) (data : Bytes) (new : List Bytes) :
    overlay (Function.update chunks seq (some data)) (seq + 1) new = overlay chunks seq (data :: new) := by
  funext i
  rcases lt_trichotomy i seq with hi | rfl | hi
  · simp [overlay, hi, Nat.lt_succ_of_lt hi, Function.update_of_ne hi.ne]
  · simp [overlay]
  · obtain ⟨k, rfl⟩ : ∃ k, i = seq + 1 + k := ⟨i - (seq + 1), by omega⟩
    have h1 : ¬ seq + 1 + k < seq + 1 := by omega
    have h2 : ¬ seq + 1 + k < seq := by omega
    have h3 : seq + 1 + k - seq = k + 1 := by omega
    rw [overlay, if_neg h1, overlay, if_neg h2, h3, Function.update_of_ne hi.ne', Nat.add_sub_cancel_left, List.getElem?_cons_succ]

/-- Where every write succeeds, the chunks of the file are written over those from `seq` on. -/
theorem holds_finalize {t : Tree} {chunks : ℕ → Option Bytes} (h : Holds v.cipher t v.dir chunks) {seq : ℕ}
    {reads : List (Piece 262144)} (hlen : seq + reads.length ≤ 2 ^ 63) (hall : (finalize v t seq reads).2 = true) :
    Holds v.cipher (finalize v t seq reads).1 v.dir (overlay chunks seq (fileChunks reads)) := by
  induction reads generalizing t chunks seq with
  | nil =>
    rw [fileChunks, List.map_nil, List.filter_nil, overlay_nil]
    exact h
  | cons p reads ih =>
    rw [List.length_cons] at hlen
    by_cases hp : p.data = []
    · have hsame : fileChunks (p :: reads) = fileChunks reads := by simp [fileChunks, hp]
      rw [finalize, if_pos hp] at hall ⊢
      rw [hsame]
      exact ih h (by omega) hall
    · have hcons : fileChunks (p :: reads) = p.data :: fileChunks reads := by simp [fileChunks, hp]
      rw [finalize, if_neg hp] at hall ⊢
      simp only [Bool.and_eq_true, Option.isNone_iff_eq_none] at hall
      obtain ⟨chunks', hholds, hcase⟩ := holds_send h (by omega : seq < 2 ^ 63) p.data p.transit
      rcases hcase with rfl | ⟨-, hfail⟩
      · rw [hcons, ← overlay_cons]
        exact ih hholds (by omega) hall.2
      · exact absurd hall.1 hfail

/-! What is read back. -/

/-- The bytes of chunks, one after the other. -/
def content (chunks : List (ℤ × Bytes)) : Bytes := (chunks.map Prod.snd).flatten

theorem content_numbered (l : List ℕ) :
    content (l.filterMap fun seq => (chunks seq).map fun plain => ((seq : ℤ), plain)) = (l.filterMap chunks).flatten := by
  rw [content, List.map_filterMap]
  simp [Option.map_map, Function.comp_def]

theorem range_filterMap_getElem (l : List Bytes) : (List.range l.length).filterMap (fun i => l[i]?) = l := by
  induction l with
  | nil => rfl
  | cons b l ih =>
    rw [List.length_cons, List.range_succ_eq_map, List.filterMap_cons, List.filterMap_map]
    simpa [Function.comp_def] using ih

theorem overlay_zero (new : List Bytes) (i : ℕ) :
    overlay chunks 0 new i = if i < new.length then new[i]? else chunks i := by
  rw [overlay, if_neg (Nat.not_lt_zero i), Nat.sub_zero]
  split_ifs with hi
  · rw [List.getElem?_eq_getElem hi]
    rfl
  · rw [List.getElem?_eq_none (not_lt.1 hi)]
    rfl

theorem overlay_content (new : List Bytes) (k : ℕ) :
    (List.range (new.length + k)).filterMap (overlay chunks 0 new) =
      new ++ (List.range k).filterMap fun i => chunks (new.length + i) := by
  rw [List.range_add, List.filterMap_append, List.filterMap_map]
  congr 1
  · refine Eq.trans (List.filterMap_congr fun i hi => ?_) (range_filterMap_getElem new)
    rw [overlay_zero, if_pos (List.mem_range.1 hi)]
  · refine List.filterMap_congr fun i _ => ?_
    rw [Function.comp_apply, overlay_zero, if_neg (by omega)]

theorem fileChunks_flatten (reads : List (Piece 262144)) : (fileChunks reads).flatten = (reads.map Piece.data).flatten := by
  rw [fileChunks]
  induction reads with
  | nil => rfl
  | cons p reads ih =>
    by_cases hp : p.data = []
    · simpa [hp] using ih
    · simpa [hp] using ih

/-- Nothing is behind the file exactly if every interim chunk has a number of one of its chunks. -/
theorem leftover_eq_nil_iff {chunks : ℕ → Option Bytes} {n : ℕ} (m : ℕ)
    (h : ∀ seq plain, chunks seq = some plain → seq < n ∧ plain ≠ []) :
    ((List.range n).filterMap fun i => chunks (m + i)).flatten = [] ↔ ∀ seq plain, chunks seq = some plain → seq < m := by
  rw [List.flatten_eq_nil_iff]
  constructor
  · intro hall seq plain hc
    by_contra hge
    have hlt := (h seq plain hc).1
    refine (h seq plain hc).2 (hall plain (List.mem_filterMap.2 ⟨seq - m, List.mem_range.2 (by omega), ?_⟩))
    rwa [Nat.add_sub_cancel' (not_lt.1 hge)]
  · intro hall plain hmem
    obtain ⟨i, -, hc⟩ := List.mem_filterMap.1 hmem
    have := hall _ plain hc
    omega

theorem numbered_lt_iff {chunks : ℕ → Option Bytes} {n : ℕ} (m : ℕ)
    (h : ∀ seq plain, chunks seq = some plain → seq < n ∧ plain ≠ []) :
    (∀ c ∈ (List.range n).filterMap fun seq => (chunks seq).map fun plain => ((seq : ℤ), plain), c.1 < m) ↔
      ∀ seq plain, chunks seq = some plain → seq < m := by
  constructor
  · intro hall seq plain hc
    refine Int.ofNat_lt.1 (hall ((seq : ℤ), plain) (List.mem_filterMap.2 ⟨seq, List.mem_range.2 (h seq plain hc).1, ?_⟩))
    rw [hc, Option.map_some]
  · intro hall c hmem
    obtain ⟨seq, -, hc⟩ := List.mem_filterMap.1 hmem
    obtain ⟨plain, hplain, rfl⟩ := Option.map_eq_some_iff.1 hc
    exact Int.ofNat_lt.2 (hall seq plain hplain)

/-- The finalized file is what the stream holds exactly if no interim chunk has a number beyond the file's chunks. -/
theorem finalized_content_iff {t : Tree} (hnew : t.missing v.dir = true) (capBytes : ℕ) (start : ℤ)
    (live : List (Piece 65536)) (hlive : live.length < 2 ^ 63) (closed : ℤ) (last : Transit)
    (reads : List (Piece 262144)) (hreads : reads.length ≤ 2 ^ 63)
    (hall : (finalize v (relay v capBytes t start live closed last).1 0 reads).2 = true) :
    ∃ interim stored,
      read v.cipher.openChunk v.root (relay v capBytes t start live closed last).1 v.stream 0 = .ok interim ∧
      read v.cipher.openChunk v.root (finalize v (relay v capBytes t start live closed last).1 0 reads).1 v.stream 0 = .ok stored ∧
      (content stored = (reads.map Piece.data).flatten ↔ ∀ c ∈ interim, c.1 < (fileChunks reads).length) := by
  obtain ⟨chunks, hholds, hnum⟩ := interim_relay hnew capBytes start live hlive closed last
  generalize relay v capBytes t start live closed last = s at hholds hnum hall ⊢
  have hnone : ∀ seq, s.2.seq ≤ seq → chunks seq = none := by
    intro seq hle
    by_contra hsome
    obtain ⟨plain, hc⟩ := Option.ne_none_iff_exists'.1 hsome
    exact absurd (hnum seq plain hc).1 (not_lt.2 hle)
  have hfinal := holds_finalize hholds (by omega) hall
  have hbound : ∀ seq, (fileChunks reads).length + s.2.seq ≤ seq → overlay chunks 0 (fileChunks reads) seq = none := by
    intro seq hle
    rw [overlay_zero, if_neg (by omega)]
    exact hnone seq (by omega)
  refine ⟨_, _, hholds.read_eq v.accepted hnone, hfinal.read_eq v.accepted hbound, ?_⟩
  rw [content_numbered, overlay_content, List.flatten_append, fileChunks_flatten, numbered_lt_iff _ hnum,
    ← leftover_eq_nil_iff _ hnum]
  exact List.append_right_eq_self

/-- The key is left out: a chunk is stored as it is. -/
def plainCipher : Cipher := ⟨fun _ plain => some plain, some, RecStore.unsealed_opens⟩

def shortVideo : VideoStream := ⟨plainCipher, [], [116], [107], [[116], [107], ascii "video"], rfl⟩

def liveRead (b : UInt8) (seconds : ℤ) : Piece 65536 := ⟨[b], by simp, seconds * 1000000000, .carried [] 0 true⟩

def fileRead (b : UInt8) : Piece 262144 := ⟨[b], by simp, 0, .carried [] 0 true⟩

/-- One interim chunk, replaced by the one chunk of the file. -/
theorem finalized_content_one :
    ∃ interim stored,
      read some [] (relay shortVideo 0 (Tree.empty 0) 0 [liveRead 1 3] 4 .lost).1 shortVideo.stream 0 = .ok interim ∧
      read some [] (finalize shortVideo (relay shortVideo 0 (Tree.empty 0) 0 [liveRead 1 3] 4 .lost).1 0 [fileRead 9]).1
        shortVideo.stream 0 = .ok stored ∧
      (content stored = [9] ↔ ∀ c ∈ interim, c.1 < 1) :=
  finalized_content_iff (v := shortVideo) (by decide +kernel) 0 0 [liveRead 1 3] (by decide) 4 .lost [fileRead 9] (by decide)
    (by decide +kernel)

/-- Two seconds apart, two interim chunks are stored; the file is one chunk, and the second of them stays behind it. -/
theorem finalized_leaves_interim :
    (finalize shortVideo (relay shortVideo 0 (Tree.empty 0) 0 [liveRead 1 2, liveRead 2 4] 5 .lost).1 0 [fileRead 9]).2 = true ∧
      read some [] (finalize shortVideo (relay shortVideo 0 (Tree.empty 0) 0 [liveRead 1 2, liveRead 2 4] 5 .lost).1 0
        [fileRead 9]).1 shortVideo.stream 0 = .ok [(0, [9]), (1, [2])] := by
  decide +kernel

end Captivo.Video
