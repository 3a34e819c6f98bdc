import CaptivoAccess.Sanity.GuacProto
import CaptivoAccess.Sanity.RecStore

/-! What is read from a stream of the store. `Holds` says which chunks the files of a
stream's directory are; `Append` changes one of them or none, and `Read` gives them in
the order of their numbers. -/

namespace Captivo.RecStore

open Lib.Utf8 Lib.FileTree Captivo.Guac

theorem chunkStem_chunkName (seq : ℤ) : chunkStem (decimal seq ++ ascii ".bin") = some (decimal seq) := by
  rw [chunkStem, if_pos (List.suffix_append _ _), List.length_append]
  simp [show (ascii ".bin").length = 4 from rfl]

theorem chunkOf_chunkName (openChunk : Bytes → Option Bytes) {seq : ℕ} (h : seq < 2 ^ 63) (sealed : Bytes) :
    chunkOf openChunk 0 (decimal seq ++ ascii ".bin", .file sealed) =
      (openChunk sealed).map fun plain => ((seq : ℤ), plain) := by
  simp only [chunkOf, chunkStem_chunkName, atoi_decimal h]
  rw [if_neg (by simp)]

theorem chunkName_inj {seq seq' : ℕ} (h : seq < 2 ^ 63) (h' : seq' < 2 ^ 63)
    (heq : decimal seq ++ ascii ".bin" = decimal seq' ++ ascii ".bin") : seq = seq' := by
  have hdec : decimal (seq : ℤ) = decimal seq' := List.append_cancel_right heq
  have hval : atoi (decimal (seq : ℤ)) = atoi (decimal (seq' : ℤ)) := by rw [hdec]
  rw [atoi_decimal h, atoi_decimal h'] at hval
  exact Int.natCast_inj.1 (congrArg Prod.fst hval)

/-- The files in the directory `d` are the chunks `chunks`, each under its number. -/
structure Holds (c : Cipher) (t : Tree) (d : Path) (chunks : ℕ → Option Bytes) : Prop where
  free : t.Free d
  named : ∀ name sealed, t.view (d ++ [name]) = some (some sealed) →
    ∃ seq plain, chunks seq = some plain ∧ name = decimal (seq : ℤ) ++ ascii ".bin" ∧ c.openChunk sealed = some plain
  stored : ∀ seq plain, chunks seq = some plain →
    seq < 2 ^ 63 ∧ ∃ sealed, t.view (d ++ [decimal (seq : ℤ) ++ ascii ".bin"]) = some (some sealed) ∧
      c.openChunk sealed = some plain

theorem holds_of_missing (c : Cipher) {t : Tree} {d : Path} (h : t.missing d = true) : Holds c t d fun _ => none where
  free := t.free_of_missing h
  named := by
    intro name sealed hv
    have hdir : t.view d = some none := t.view_of_append (by rw [hv]; simp) (by simp)
    simp [Tree.missing, hdir] at h
  stored := by
    intro seq plain hn
    cases hn

theorem sorted_insertionSort {l : List (ℤ × Bytes)} (h : l.Pairwise fun x x' => x.1 ≠ x'.1) :
    (l.insertionSort fun x x' => x.1 ≤ x'.1).Pairwise fun x x' => x.1 < x'.1 := by
  have htotal : Std.Total fun x x' : ℤ × Bytes => x.1 ≤ x'.1 := ⟨fun x x' => le_total x.1 x'.1⟩
  have htrans : IsTrans (ℤ × Bytes) fun x x' => x.1 ≤ x'.1 := ⟨fun _ _ _ => le_trans⟩
  have hne := (List.perm_insertionSort (fun x x' : ℤ × Bytes => x.1 ≤ x'.1) l).symm.pairwise h Ne.symm
  exact (List.pairwise_insertionSort _ l).imp₂ (fun _ _ hle hne => lt_of_le_of_ne hle hne) hne

theorem sorted_unique {l l' : List (ℤ × Bytes)} (h : l.Pairwise fun x x' => x.1 < x'.1)
    (h' : l'.Pairwise fun x x' => x.1 < x'.1) (hmem : ∀ x, x ∈ l ↔ x ∈ l') : l = l' := by
  have hanti : Std.Antisymm fun x x' : ℤ × Bytes => x.1 < x'.1 := ⟨fun _ _ h1 h2 => absurd h1 (lt_asymm h2)⟩
  have hirr : Std.Irrefl fun x x' : ℤ × Bytes => x.1 < x'.1 := ⟨fun x => lt_irrefl x.1⟩
  exact h.eq_of_mem_iff h' hmem

namespace Holds

variable {c : Cipher} {t : Tree} {d : Path} {chunks : ℕ → Option Bytes}

variable {entries : List (Bytes × Node)}

/-- An entry of the directory that is read has the name and the content of a chunk. -/
theorem of_chunkOf (h : Holds c t d chunks) (he : t.readDir d = some entries) {e : Bytes × Node}
    (hmem : e ∈ entries) {x : ℤ × Bytes} (hx : chunkOf c.openChunk 0 e = some x) :
    ∃ seq plain, chunks seq = some plain ∧ e.1 = decimal (seq : ℤ) ++ ascii ".bin" ∧ x = ((seq : ℤ), plain) := by
  obtain ⟨name, n⟩ := e
  cases n with
  | dir m => cases hx
  | file sealed =>
    rw [t.mem_readDir he, ← t.view_eq_file] at hmem
    obtain ⟨seq, plain, hseq, rfl, hopen⟩ := h.named name sealed hmem
    rw [chunkOf_chunkName _ (h.stored seq plain hseq).1, hopen] at hx
    exact ⟨seq, plain, hseq, rfl, (Option.some.inj hx).symm⟩

theorem mem_chunks (h : Holds c t d chunks) (he : t.readDir d = some entries) (x : ℤ × Bytes) :
    x ∈ entries.filterMap (chunkOf c.openChunk 0) ↔ ∃ seq plain, chunks seq = some plain ∧ x = ((seq : ℤ), plain) := by
  rw [List.mem_filterMap]
  constructor
  · rintro ⟨e, hmem, hx⟩
    obtain ⟨seq, plain, hseq, -, heq⟩ := h.of_chunkOf he hmem hx
    exact ⟨seq, plain, hseq, heq⟩
  · rintro ⟨seq, plain, hseq, rfl⟩
    obtain ⟨hlt, sealed, hview, hopen⟩ := h.stored seq plain hseq
    refine ⟨(decimal (seq : ℤ) ++ ascii ".bin", .file sealed), ?_, ?_⟩
    · rwa [t.mem_readDir he, ← t.view_eq_file]
    · rw [chunkOf_chunkName _ hlt, hopen]
      rfl

theorem pairwise_chunks (h : Holds c t d chunks) (he : t.readDir d = some entries) :
    (entries.filterMap (chunkOf c.openChunk 0)).Pairwise fun x x' => x.1 ≠ x'.1 := by
  refine List.Pairwise.filterMap _ (fun e e' hne => ?_) (List.Pairwise.and_mem.1 (t.pairwise_readDir he))
  intro x hx x' hx' heq
  obtain ⟨seq, plain, -, hname, rfl⟩ := h.of_chunkOf he hne.1 hx
  obtain ⟨seq', plain', -, hname', rfl⟩ := h.of_chunkOf he hne.2.1 hx'
  apply hne.2.2
  rw [hname, hname', show (seq : ℤ) = seq' from heq]

theorem read_eq (h : Holds c t d chunks) {root : Path} {s : Stream} (hd : dir root s = .ok d) {n : ℕ}
    (hn : ∀ seq, n ≤ seq → chunks seq = none) :
    read c.openChunk root t s 0 = .ok ((List.range n).filterMap fun seq => (chunks seq).map fun plain => ((seq : ℤ), plain)) := by
  simp only [read, hd]
  cases he : t.readDir d with
  | none =>
    have hnone : t.view d = none := by
      by_contra hsome
      obtain ⟨k, hk⟩ := Option.ne_none_iff_exists'.1 hsome
      cases k with
      | none => simp [Tree.readDir, hk] at he
      | some content => exact h.free d (List.prefix_refl d) content hk
    have hempty : ∀ seq, chunks seq = none := by
      intro seq
      by_contra hsome
      obtain ⟨plain, hplain⟩ := Option.ne_none_iff_exists'.1 hsome
      obtain ⟨-, sealed, hview, -⟩ := h.stored seq plain hplain
      rw [t.view_of_append (by rw [hview]; simp) (by simp)] at hnone
      cases hnone
    simp [t.missing_of_free h.free hnone, hempty]
  | some entries =>
    refine congrArg Except.ok (sorted_unique (sorted_insertionSort (h.pairwise_chunks he)) ?_ fun x => ?_)
    · refine List.Pairwise.filterMap _ (fun seq seq' hlt => ?_) List.pairwise_lt_range
      intro x hx x' hx'
      obtain ⟨_, -, rfl⟩ := Option.map_eq_some_iff.1 hx
      obtain ⟨_, -, rfl⟩ := Option.map_eq_some_iff.1 hx'
      exact Int.ofNat_lt.2 hlt
    · rw [List.mem_insertionSort, h.mem_chunks he, List.mem_filterMap]
      constructor
      · rintro ⟨seq, plain, hseq, rfl⟩
        refine ⟨seq, List.mem_range.2 ?_, by rw [hseq]; rfl⟩
        by_contra hge
        rw [hn seq (not_lt.1 hge)] at hseq
        cases hseq
      · rintro ⟨seq, -, hx⟩
        obtain ⟨plain, hseq, rfl⟩ := Option.map_eq_some_iff.1 hx
        exact ⟨seq, plain, hseq, rfl⟩

theorem mkdirAll (h : Holds c t d chunks) (now : ℤ) : Holds c (t.mkdirAll now d).1 d chunks := by
  have hsame : ∀ name, (t.mkdirAll now d).1.view (d ++ [name]) = t.view (d ++ [name]) := by
    intro name
    by_contra hne
    obtain ⟨-, r, -, hr, hq⟩ := t.view_mkdirFrom now [] _ d hne
    rw [List.nil_append] at hq
    have hlen := hr.length_le
    rw [← hq, List.length_append, List.length_singleton] at hlen
    omega
  refine ⟨fun q hq content hv => h.free q hq content (t.noNewFile_mkdirFrom now [] d q content hv), ?_, ?_⟩
  · intro name sealed hv
    rw [hsame] at hv
    exact h.named name sealed hv
  · intro seq plain hseq
    rw [hsame]
    exact h.stored seq plain hseq

theorem writeFile (h : Holds c t d chunks) {now : ℤ} {seq : ℕ} (hseq : seq < 2 ^ 63) {plain sealed : Bytes}
    (hopen : c.openChunk sealed = some plain)
    (hok : (t.writeFile now (d ++ [decimal (seq : ℤ) ++ ascii ".bin"]) sealed).2 = true) :
    Holds c (t.writeFile now (d ++ [decimal (seq : ℤ) ++ ascii ".bin"]) sealed).1 d (Function.update chunks seq (some plain)) := by
  have hself := t.view_writeFile_self hok
  have hother : ∀ q, q ≠ d ++ [decimal (seq : ℤ) ++ ascii ".bin"] →
      (t.writeFile now (d ++ [decimal (seq : ℤ) ++ ascii ".bin"]) sealed).1.view q = t.view q := by
    intro q hq
    by_contra hne
    exact hq (t.view_writeFile now _ q sealed hne)
  refine ⟨?_, ?_, ?_⟩
  · intro q hq content hv
    have hne : q ≠ d ++ [decimal (seq : ℤ) ++ ascii ".bin"] := by
      rintro rfl
      have hlen := hq.length_le
      rw [List.length_append, List.length_singleton] at hlen
      omega
    rw [hother q hne] at hv
    exact h.free q hq content hv
  · intro name content hv
    by_cases hname : name = decimal (seq : ℤ) ++ ascii ".bin"
    · subst hname
      rw [hself] at hv
      obtain rfl := Option.some.inj (Option.some.inj hv)
      exact ⟨seq, plain, Function.update_self .., rfl, hopen⟩
    · rw [hother _ (by simpa using hname)] at hv
      obtain ⟨seq', plain', hc, rfl, ho⟩ := h.named name content hv
      refine ⟨seq', plain', ?_, rfl, ho⟩
      rwa [Function.update_of_ne]
      rintro rfl
      exact hname rfl
  · intro seq' plain' hc
    by_cases he : seq' = seq
    · subst he
      rw [Function.update_self, Option.some.injEq] at hc
      subst hc
      exact ⟨hseq, sealed, hself, hopen⟩
    · rw [Function.update_of_ne he] at hc
      obtain ⟨hlt, content, hv, ho⟩ := h.stored seq' plain' hc
      refine ⟨hlt, content, ?_, ho⟩
      rwa [hother]
      intro hpath
      exact he (chunkName_inj hlt hseq (by simpa using hpath))

/-- What `Append` leaves: with success the chunk is under its number, without it nothing has changed. -/
theorem append (h : Holds c t d chunks) {root : Path} {s : Stream} (hd : dir root s = .ok d) (nonce : Bytes) (now : ℤ)
    {seq : ℕ} (hseq : seq < 2 ^ 63) (plain : Bytes) :
    Holds c (append (c.sealWith nonce) now root t s seq plain).1 d
      (if (append (c.sealWith nonce) now root t s seq plain).2.isOk then Function.update chunks seq (some plain) else chunks) := by
  have hmade := h.mkdirAll now
  simp only [RecStore.append, hd]
  by_cases hok : (t.mkdirAll now d).2 = false
  · simpa [hok, Except.isOk, Except.toBool] using hmade
  · rw [if_neg hok]
    cases hsealed : c.sealWith nonce plain with
    | none => simpa [Except.isOk, Except.toBool] using hmade
    | some sealed =>
      simp only [join_of_valid d (chunkName_valid (seq : ℤ))]
      cases hw : ((t.mkdirAll now d).1.writeFile now (d ++ [decimal (seq : ℤ) ++ ascii ".bin"]) sealed).2 with
      | true =>
        simpa [Except.isOk, Except.toBool] using hmade.writeFile hseq (c.opens nonce plain sealed hsealed) hw
      | false =>
        rw [Tree.writeFile_failed _ hw]
        simpa [Except.isOk, Except.toBool] using hmade

end Holds

theorem unsealed_opens (_ plain kept : Bytes) (h : some plain = some kept) : some kept = some plain := h.symm

/-- A store that keeps its chunks as they are. -/
def unsealed : Cipher := ⟨fun _ plain => some plain, some, unsealed_opens⟩

/-! Chunks under growing numbers. -/

/-- The chunks in the directory are those of the list. -/
def Lists (c : Cipher) (t : Tree) (d : Path) (l : List (ℕ × Bytes)) : Prop :=
  ∃ chunks, Holds c t d chunks ∧ ∀ seq plain, chunks seq = some plain ↔ (seq, plain) ∈ l

theorem lists_of_missing (c : Cipher) {t : Tree} {d : Path} (h : t.missing d = true) : Lists c t d [] :=
  ⟨_, holds_of_missing c h, by simp⟩

theorem Lists.append {c : Cipher} {t : Tree} {d : Path} {l : List (ℕ × Bytes)} (h : Lists c t d l) {root : Path} {s : Stream}
    (hd : dir root s = .ok d) (nonce : Bytes) (now : ℤ) {seq : ℕ} (hseq : seq < 2 ^ 63) (hlt : ∀ x ∈ l, x.1 < seq) {plain : Bytes}
    (hok : (append (c.sealWith nonce) now root t s seq plain).2.isOk = true) :
    Lists c (append (c.sealWith nonce) now root t s seq plain).1 d (l ++ [(seq, plain)]) := by
  obtain ⟨chunks, hholds, hmem⟩ := h
  have happended := hholds.append hd nonce now hseq plain
  rw [if_pos hok] at happended
  refine ⟨_, happended, fun seq' plain' => ?_⟩
  rw [List.mem_append, List.mem_singleton, Prod.mk.injEq]
  by_cases he : seq' = seq
  · subst he
    have hnew : (seq', plain') ∉ l := fun hx => lt_irrefl _ (hlt _ hx)
    rw [Function.update_self, Option.some.injEq]
    simp [hnew, eq_comm]
  · rw [Function.update_of_ne he, hmem]
    simp [he]

theorem Lists.read_eq {c : Cipher} {t : Tree} {d : Path} {l : List (ℕ × Bytes)} (h : Lists c t d l) {root : Path} {s : Stream}
    (hd : dir root s = .ok d) (hl : l.Pairwise fun x x' => x.1 < x'.1) :
    read c.openChunk root t s 0 = .ok (l.map fun x => ((x.1 : ℤ), x.2)) := by
  obtain ⟨chunks, hholds, hmem⟩ := h
  obtain ⟨n, hn⟩ : ∃ n, ∀ x ∈ l, x.1 < n := by
    obtain ⟨n, hn⟩ := (l.map Prod.fst).toFinset.exists_le
    refine ⟨n + 1, fun x hx => Nat.lt_succ_of_le (hn x.1 ?_)⟩
    simpa using ⟨x.2, hx⟩
  have hnone : ∀ seq, n ≤ seq → chunks seq = none := by
    intro seq hle
    by_contra hsome
    obtain ⟨plain, hplain⟩ := Option.ne_none_iff_exists'.1 hsome
    exact absurd (hn _ ((hmem seq plain).1 hplain)) (not_lt.2 hle)
  rw [hholds.read_eq hd hnone]
  refine congrArg Except.ok (sorted_unique ?_ ?_ fun x => ?_)
  · refine List.Pairwise.filterMap _ (fun seq seq' hlt => ?_) List.pairwise_lt_range
    intro x hx x' hx'
    obtain ⟨_, -, rfl⟩ := Option.map_eq_some_iff.1 hx
    obtain ⟨_, -, rfl⟩ := Option.map_eq_some_iff.1 hx'
    exact Int.ofNat_lt.2 hlt
  · exact List.pairwise_map.2 (hl.imp fun hlt => Int.ofNat_lt.2 hlt)
  · rw [List.mem_filterMap, List.mem_map]
    constructor
    · intro h
      obtain ⟨seq, -, hx⟩ := h
      obtain ⟨plain, hplain, rfl⟩ := Option.map_eq_some_iff.1 hx
      exact ⟨(seq, plain), (hmem seq plain).1 hplain, rfl⟩
    · intro ⟨⟨seq, plain⟩, hx, he⟩
      refine ⟨seq, List.mem_range.2 (hn _ hx), ?_⟩
      rw [(hmem seq plain).2 hx, ← he]
      rfl

end Captivo.RecStore
