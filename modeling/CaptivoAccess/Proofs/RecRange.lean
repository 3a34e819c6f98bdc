import CaptivoAccess.Proofs.VideoRange
import CaptivoAccess.Sanity.RecRead
import CaptivoAccess.Spec.RecRange

/-! A slice of a stream is the slice of its chunks put together, in whatever order and however
often they were stored. -/

namespace Captivo.RecStore

open Lib.Utf8 Lib.FileTree

variable {chunks : ℕ → Option Bytes}

theorem holds_appendAll {c : Cipher} {root : Path} {s : Stream} {d : Path} (hd : dir root s = .ok d) {t : Tree}
    (h : Holds c t d chunks) (calls : List Appending) :
    Holds c (appendAll c root s (t, chunks) calls).1 d (appendAll c root s (t, chunks) calls).2 := by
  induction calls generalizing t chunks with
  | nil => exact h
  | cons a calls ih => exact ih (h.append hd a.nonce a.now a.isInt a.plain)

theorem appendAll_none {c : Cipher} {root : Path} {s : Stream} {t : Tree} {calls : List Appending}
    {n : ℕ} (hchunks : ∀ seq, n ≤ seq → chunks seq = none) (hcalls : ∀ a ∈ calls, a.seq < n) (seq : ℕ) (hseq : n ≤ seq) :
    (appendAll c root s (t, chunks) calls).2 seq = none := by
  induction calls generalizing t chunks with
  | nil => exact hchunks seq hseq
  | cons a calls ih =>
    obtain ⟨ha, hcalls⟩ := List.forall_mem_cons.1 hcalls
    refine ih (fun seq' hseq' => ?_) hcalls
    split_ifs
    · rw [Function.update_of_ne (by omega)]
      exact hchunks seq' hseq'
    · exact hchunks seq' hseq'

theorem flatten_chunks (chunks : ℕ → Option Bytes) (n : ℕ) :
    (((List.range n).filterMap fun seq => (chunks seq).map fun plain => ((seq : ℤ), plain)).map Prod.snd).flatten =
      concatenation chunks n := by
  rw [concatenation]
  induction List.range n with
  | nil => rfl
  | cons seq rest ih =>
    rw [List.filterMap_cons, List.flatMap_cons, ← ih]
    cases chunks seq with
    | none => rfl
    | some plain => rfl

theorem Holds.readRange_eq {c : Cipher} {t : Tree} {d : Path} (h : Holds c t d chunks) {root : Path}
    {s : Stream} (hd : dir root s = .ok d) {n : ℕ} (hn : ∀ seq, n ≤ seq → chunks seq = none) {lo hi : ℕ} (hle : lo ≤ hi) :
    readRange c.openChunk root t s lo hi = .ok (((concatenation chunks n).take (hi + 1)).drop lo) ∧
      totalPlaintextBytes c.openChunk root t s = .ok (concatenation chunks n).length := by
  have hread := h.read_eq hd hn
  have hvalid : ¬ ((lo : ℤ) < 0 ∨ (hi : ℤ) < lo) := by omega
  constructor
  · have hslice := RecFetch.readChunks_eq hle
      (((List.range n).filterMap fun seq => (chunks seq).map fun plain => ((seq : ℤ), plain)).map Prod.snd) 0
    rw [flatten_chunks, Nat.sub_zero, Nat.sub_zero] at hslice
    rw [readRange, if_neg hvalid, hread]
    exact congrArg Except.ok hslice
  · rw [totalPlaintextBytes, hread]
    exact congrArg Except.ok ((RecFetch.totalPlaintextBytes_eq _).trans (congrArg List.length (flatten_chunks chunks n)))

theorem take_min (bs : Bytes) (hi : ℕ) : bs.take (min hi (bs.length - 1) + 1) = bs.take (hi + 1) := by
  by_cases hlt : hi < bs.length
  · rw [min_eq_left (by omega)]
  · rw [List.take_of_length_le (by omega), List.take_of_length_le (by omega)]

/-- Whatever chunks were stored in a stream, of whatever sizes and in whatever order: a slice of it is that slice of the chunks put
together by number, up to the last byte there is, and its total is their length. -/
theorem stored_range_is_slice (c : Cipher) (root : Path) (s : Stream) (d : Path) (hd : dir root s = .ok d) (t : Tree)
    (hnew : t.missing d = true) (calls : List Appending) (n : ℕ) (hn : ∀ a ∈ calls, a.seq < n) (lo hi : ℕ) (hle : lo ≤ hi) :
    let stored := appendAll c root s (t, fun _ => none) calls
    let whole := concatenation stored.2 n
    readRange c.openChunk root stored.1 s lo hi = .ok ((whole.take (min hi (whole.length - 1) + 1)).drop lo) ∧
      totalPlaintextBytes c.openChunk root stored.1 s = .ok whole.length := by
  intro stored whole
  have hholds : Holds c stored.1 d stored.2 := holds_appendAll hd (holds_of_missing c hnew) calls
  have hnone : ∀ seq, n ≤ seq → stored.2 seq = none := appendAll_none (fun _ _ => rfl) hn
  rw [take_min]
  exact hholds.readRange_eq hd hnone hle

/-- A chunk that is written before the one in front of it, an empty one, and one that is written twice. -/
theorem stored_range_is_slice_across :
    let stored := appendAll unsealed [] ⟨ascii "t", ascii "k", ascii "video"⟩ (Tree.empty 0, fun _ => none)
      [⟨0, [], 2, by decide, [4, 5]⟩, ⟨1, [], 0, by decide, [9]⟩, ⟨2, [], 1, by decide, []⟩, ⟨3, [], 0, by decide, [1, 2, 3]⟩]
    readRange unsealed.openChunk [] stored.1 ⟨ascii "t", ascii "k", ascii "video"⟩ 1 9 = .ok [2, 3, 4, 5] ∧
      totalPlaintextBytes unsealed.openChunk [] stored.1 ⟨ascii "t", ascii "k", ascii "video"⟩ = .ok 5 := by
  have h := stored_range_is_slice unsealed [] ⟨ascii "t", ascii "k", ascii "video"⟩ [ascii "t", ascii "k", ascii "video"] (by decide +kernel)
    (Tree.empty 0) (by decide +kernel)
    [⟨0, [], 2, by decide, [4, 5]⟩, ⟨1, [], 0, by decide, [9]⟩, ⟨2, [], 1, by decide, []⟩, ⟨3, [], 0, by decide, [1, 2, 3]⟩] 3
    (by decide) 1 9 (by decide)
  refine ⟨h.1.trans ?_, h.2.trans ?_⟩
  · decide +kernel
  · decide +kernel

end Captivo.RecStore
