import CaptivoAccess.Spec.RecStore

/-! Where an accepted segment leads, and what each call of the store changes. A
segment that passes the check is a valid name or a single dot, and joining a dot
leaves the path as it is. -/

namespace Captivo.RecStore

open Lib.Utf8 Lib.FileTree

variable {s : Bytes}

theorem safeSegment_ne_nil (h : safeSegment s = true) : s ≠ [] := by
  rintro rfl
  exact absurd h (by decide)

theorem safeSegment_notMem {b : UInt8} (h : safeSegment s = true) (hb : safeByte b = false) : b ∉ s := by
  intro hm
  simp only [safeSegment, Bool.and_eq_true, List.all_eq_true] at h
  rw [h.2 b hm] at hb
  cases hb

theorem safeSegment_valid (h : safeSegment s = true) (h1 : s ≠ [46]) (h2 : s ≠ [46, 46]) : ValidName s :=
  ⟨safeSegment_ne_nil h, h1, h2, safeSegment_notMem h (by decide), safeSegment_notMem h (by decide)⟩

theorem checkSegment_ok {what : String} :
    checkSegment what s = .ok () ↔ safeSegment s = true ∧ containsDotDot s = false := by
  unfold checkSegment
  by_cases h : safeSegment s = false ∨ containsDotDot s = true
  · rw [if_pos h]
    constructor
    · intro he
      cases he
    · rintro ⟨h1, h2⟩
      simp [h1, h2] at h
  · rw [if_neg h]
    simpa using h

/-- The names a segment adds to a path: none where it is a dot. -/
def names (s : Bytes) : Path := if s = [46] then [] else [s]

theorem names_of_ne (h : s ≠ [46]) : names s = [s] := if_neg h

theorem join_checked {what : String} (base : Path) (h : checkSegment what s = .ok ()) :
    join base s = base ++ names s := by
  obtain ⟨hs, hdd⟩ := checkSegment_ok.mp h
  unfold names
  split_ifs with h1
  · rw [h1, List.append_nil]
    rfl
  · apply join_of_valid
    apply safeSegment_valid hs h1
    rintro rfl
    exact absurd hdd (by decide)

theorem recDir_ok {root d : Path} {tenantID recordingKey : Bytes} (h : recDir root tenantID recordingKey = .ok d) :
    checkSegment "tenant id" tenantID = .ok () ∧ checkSegment "recording key" recordingKey = .ok () ∧
      d = root ++ names tenantID ++ names recordingKey := by
  unfold recDir at h
  cases h1 : checkSegment "tenant id" tenantID with
  | error e => simp [h1, bind, Except.bind] at h
  | ok _ =>
    cases h2 : checkSegment "recording key" recordingKey with
    | error e => simp [h1, h2, bind, Except.bind] at h
    | ok _ =>
      simp only [h1, h2, bind, Except.bind, pure, Except.pure, Except.ok.injEq] at h
      refine ⟨rfl, rfl, ?_⟩
      rw [← h, join_checked _ h2, join_checked _ h1]

theorem dir_ok {root d : Path} {s : Stream} (h : dir root s = .ok d) :
    checkSegment "tenant id" s.tenantID = .ok () ∧ checkSegment "recording key" s.recordingKey = .ok () ∧
      checkSegment "format" s.format = .ok () ∧
      d = root ++ (names s.tenantID ++ names s.recordingKey ++ names s.format) := by
  unfold dir at h
  cases h1 : recDir root s.tenantID s.recordingKey with
  | error e => simp [h1, bind, Except.bind] at h
  | ok base =>
    cases h2 : checkSegment "format" s.format with
    | error e => simp [h1, h2, bind, Except.bind] at h
    | ok _ =>
      simp only [h1, h2, bind, Except.bind, pure, Except.pure, Except.ok.injEq] at h
      obtain ⟨ht, hk, rfl⟩ := recDir_ok h1
      refine ⟨ht, hk, rfl, ?_⟩
      rw [← h, join_checked _ h2]
      simp only [List.append_assoc]

theorem chunkName_valid (seq : ℤ) : ValidName (decimal seq ++ ascii ".bin") := by
  have hlen : 4 ≤ (decimal seq ++ ascii ".bin").length := by
    rw [List.length_append]
    exact Nat.le_add_left _ _
  have hmem : ∀ b ∈ decimal seq ++ ascii ".bin", b ≠ 47 ∧ b ≠ 0 := by
    intro b hb
    rcases List.mem_append.mp hb with hb | hb
    · rcases mem_decimal hb with rfl | ⟨h1, h2⟩
      · decide
      · constructor <;> rintro rfl <;> revert h1 <;> decide
    · exact (by decide +kernel : ∀ b ∈ ascii ".bin", b ≠ 47 ∧ b ≠ 0) b hb
  refine ⟨?_, ?_, ?_, fun h => (hmem 47 h).1 rfl, fun h => (hmem 0 h).2 rfl⟩ <;>
  · intro he
    rw [he] at hlen
    simp at hlen

variable {sealChunk : Bytes → Option Bytes} {t : Tree}

/-- `Append` adds directories on the way to the stream's and writes one file in it. -/
theorem append_changes {now seq : ℤ} {root d p : Path} {s : Stream}
    {plain : Bytes} (hd : dir root s = .ok d) (h : (append sealChunk now root t s seq plain).1.view p ≠ t.view p) :
    (t.view p = none ∧ p <+: d) ∨ p = d ++ [decimal seq ++ ascii ".bin"] := by
  have made : (t.mkdirAll now d).1.view p ≠ t.view p → t.view p = none ∧ p <+: d := by
    intro hm
    obtain ⟨hn, r, -, hr, hp⟩ := t.view_mkdirFrom now [] p d hm
    rw [List.nil_append] at hp
    exact ⟨hn, hp ▸ hr⟩
  simp only [append, hd] at h
  split_ifs at h with hok
  · exact Or.inl (made h)
  · split at h
    · exact Or.inl (made h)
    · rw [join_of_valid d (chunkName_valid seq)] at h
      by_cases hm : (t.mkdirAll now d).1.view p = t.view p
      · rw [← hm] at h
        exact Or.inr (Tree.view_writeFile _ now _ p _ h)
      · exact Or.inl (made hm)

theorem append_stored {now seq : ℤ} {root d : Path} {s : Stream} {plain : Bytes}
    (hd : dir root s = .ok d) (hok : (append sealChunk now root t s seq plain).2.isOk = true) :
    ∃ sealed, sealChunk plain = some sealed ∧
      (append sealChunk now root t s seq plain).1.view (d ++ [decimal seq ++ ascii ".bin"]) = some (some sealed) := by
  simp only [append, hd] at hok ⊢
  by_cases hmade : (t.mkdirAll now d).2 = false
  · rw [if_pos hmade] at hok
    cases hok
  · rw [if_neg hmade] at hok ⊢
    cases hsealed : sealChunk plain with
    | none =>
      rw [hsealed] at hok
      cases hok
    | some sealed =>
      simp only [hsealed, join_of_valid d (chunkName_valid seq)] at hok ⊢
      refine ⟨sealed, rfl, Tree.view_writeFile_self _ ?_⟩
      by_contra hfailed
      rw [if_neg hfailed] at hok
      cases hok

theorem delete_changes {now : ℤ} {root d p : Path} {tenantID recordingKey : Bytes}
    (hd : recDir root tenantID recordingKey = .ok d)
    (h : (delete now root t tenantID recordingKey).1.view p ≠ t.view p) : d <+: p := by
  simp only [delete, hd, Tree.view_removeAll] at h
  split_ifs at h with hb
  · exact hb.1
  · exact absurd rfl h

theorem sweepEntry_view (now olderThan modTime : ℤ) (base p : Path) (name : Bytes) (acc : Tree × ℕ) :
    (sweepEntry now base olderThan acc (name, .dir modTime)).1.view p =
      if modTime < olderThan ∧ Tree.Below (join base name) p then none else acc.1.view p := by
  by_cases hold : modTime < olderThan
  · simp only [sweepEntry, hold, if_true, Tree.view_removeAll, true_and]
  · simp only [sweepEntry, hold, false_and, if_false]

variable {now olderThan : ℤ}

/-- The sweep takes away old directories it was given the names of, with what is below them. -/
theorem sweep_changes {base p : Path} {entries : List (Bytes × Node)} {acc : Tree × ℕ}
    (h : (entries.foldl (sweepEntry now base olderThan) acc).1.view p ≠ acc.1.view p) :
    ∃ name modTime, (name, Node.dir modTime) ∈ entries ∧ join base name <+: p := by
  induction entries generalizing acc with
  | nil => exact absurd rfl h
  | cons e entries ih =>
    by_cases hstep : (sweepEntry now base olderThan acc e).1.view p = acc.1.view p
    · rw [List.foldl_cons, ← hstep] at h
      obtain ⟨name, modTime, hm, hp⟩ := ih h
      exact ⟨name, modTime, List.mem_cons_of_mem _ hm, hp⟩
    · obtain ⟨name, _ | modTime⟩ := e
      · exact absurd rfl hstep
      · rw [sweepEntry_view] at hstep
        split_ifs at hstep with hb
        · exact ⟨name, modTime, List.mem_cons_self, hb.2.1⟩
        · exact absurd rfl hstep

theorem purge_changes {root p : Path} {tenantID : Bytes}
    (h : (purge now root t tenantID olderThan).1.view p ≠ t.view p) :
    ∃ entries name modTime, t.readDir (join root tenantID) = some entries ∧ (name, Node.dir modTime) ∈ entries ∧
      join (join root tenantID) name <+: p := by
  by_cases hs : safeSegment tenantID = false
  · simp [purge, hs] at h
  · cases he : t.readDir (join root tenantID) with
    | none => simp [purge, hs, he] at h
    | some entries =>
      simp only [purge, hs, he] at h
      obtain ⟨name, modTime, hm, hp⟩ := sweep_changes h
      exact ⟨entries, name, modTime, rfl, hm, hp⟩

theorem sweep_none {base p : Path} (entries : List (Bytes × Node)) {acc : Tree × ℕ}
    (h : acc.1.view p = none) : (entries.foldl (sweepEntry now base olderThan) acc).1.view p = none := by
  induction entries generalizing acc with
  | nil => exact h
  | cons e entries ih =>
    apply ih
    obtain ⟨name, _ | modTime⟩ := e
    · exact h
    · rw [sweepEntry_view, h, ite_self]

theorem sweep_removes {now olderThan modTime : ℤ} {base : Path} {name : Bytes} {entries : List (Bytes × Node)}
    {acc : Tree × ℕ} (hm : (name, Node.dir modTime) ∈ entries) (hold : modTime < olderThan) (hne : join base name ≠ []) :
    (entries.foldl (sweepEntry now base olderThan) acc).1.view (join base name) = none := by
  induction entries generalizing acc with
  | nil => simp at hm
  | cons e entries ih =>
    rcases List.mem_cons.mp hm with rfl | hm
    · rw [List.foldl_cons]
      apply sweep_none
      rw [sweepEntry_view, if_pos ⟨hold, List.prefix_refl _, hne⟩]
    · exact ih hm

/-- A sweep takes away what is in an old directory of the list, and nothing else. -/
theorem sweep_view {now olderThan : ℤ} {base p : Path} {entries : List (Bytes × Node)} {acc : Tree × ℕ} :
    (entries.foldl (sweepEntry now base olderThan) acc).1.view p = acc.1.view p ∨
      ∃ name modTime, (name, Node.dir modTime) ∈ entries ∧ modTime < olderThan ∧ Tree.Below (join base name) p := by
  induction entries generalizing acc with
  | nil => exact Or.inl rfl
  | cons e entries ih =>
    rcases @ih (sweepEntry now base olderThan acc e) with hsame | ⟨name, modTime, hmem, hgone⟩
    · obtain ⟨name, _ | modTime⟩ := e
      · exact Or.inl hsame
      · rw [sweepEntry_view] at hsame
        split_ifs at hsame with hgone
        · exact Or.inr ⟨name, modTime, List.mem_cons_self, hgone⟩
        · exact Or.inl hsame
    · exact Or.inr ⟨name, modTime, List.mem_cons_of_mem _ hmem, hgone⟩

/-! Files and times. Erasing brings no file, and `Append` brings one. -/

theorem noNewFile_delete (now : ℤ) (root : Path) (t : Tree) (tenantID recordingKey : Bytes) :
    t.NoNewFile (delete now root t tenantID recordingKey).1 := by
  unfold delete
  split
  · exact fun _ _ h => h
  · exact t.noNewFile_removeAll now _

theorem no_file_of_delete {now : ℤ} {root d p : Path} {tenantID recordingKey content : Bytes}
    (hd : recDir root tenantID recordingKey = .ok d) (hp : d <+: p) :
    (delete now root t tenantID recordingKey).1.view p ≠ some (some content) := by
  simp only [delete, hd, Tree.view_removeAll]
  split_ifs with hb
  · simp
  · by_cases hnil : p = []
    · rw [hnil, Tree.view_top]
      simp
    · exact absurd ⟨hp, hnil⟩ hb

theorem sweepEntry_preserves (now olderThan : ℤ) (base : Path) (acc : Tree × ℕ) (e : Bytes × Node) :
    acc.1.NoNewFile (sweepEntry now base olderThan acc e).1 ∧ acc.1.Dated now (sweepEntry now base olderThan acc e).1 := by
  obtain ⟨name, _ | modTime⟩ := e
  · exact ⟨fun _ _ h => h, Tree.Dated.refl now acc.1⟩
  · by_cases hold : modTime < olderThan
    · simp only [sweepEntry, hold, if_true]
      exact ⟨acc.1.noNewFile_removeAll now _, acc.1.dated_removeAll now _⟩
    · simp only [sweepEntry, hold, if_false]
      exact ⟨fun _ _ h => h, Tree.Dated.refl now acc.1⟩

theorem sweep_preserves (now olderThan : ℤ) (base : Path) (entries : List (Bytes × Node)) (acc : Tree × ℕ) :
    acc.1.NoNewFile (entries.foldl (sweepEntry now base olderThan) acc).1 ∧
      acc.1.Dated now (entries.foldl (sweepEntry now base olderThan) acc).1 := by
  induction entries generalizing acc with
  | nil => exact ⟨fun _ _ h => h, Tree.Dated.refl now acc.1⟩
  | cons e entries ih =>
    have hentry := sweepEntry_preserves now olderThan base acc e
    have hrest := ih (sweepEntry now base olderThan acc e)
    exact ⟨hentry.1.trans hrest.1, hentry.2.trans hrest.2⟩

theorem purge_preserves (now : ℤ) (root : Path) (t : Tree) (tenantID : Bytes) (olderThan : ℤ) :
    t.NoNewFile (purge now root t tenantID olderThan).1 ∧ t.Dated now (purge now root t tenantID olderThan).1 := by
  by_cases hs : safeSegment tenantID = false
  · simp only [purge, hs, if_true]
    exact ⟨fun _ _ h => h, Tree.Dated.refl now t⟩
  · cases he : t.readDir (join root tenantID) with
    | none =>
      simp only [purge, hs, he]
      exact ⟨fun _ _ h => h, Tree.Dated.refl now t⟩
    | some entries =>
      simp only [purge, hs, he]
      exact sweep_preserves now olderThan _ _ (t, 0)

/-- After a sweep every directory of the tenant's is as young as the sweep asked. -/
theorem purge_leaves_young {now olderThan m : ℤ} {root : Path} {tenantID name : Bytes}
    (hsafe : safeSegment tenantID = true) (hle : olderThan ≤ now)
    (h : (purge now root t tenantID olderThan).1.nodes.lookup (join root tenantID ++ [name]) = some (.dir m)) :
    olderThan ≤ m := by
  by_contra hold
  have hm : m < olderThan := lt_of_not_ge hold
  rcases (purge_preserves now root t tenantID olderThan).2 _ m h with ht | rfl
  · have hview : ∀ t' : Tree, t'.nodes.lookup (join root tenantID ++ [name]) = some (.dir m) →
        t'.view (join root tenantID ++ [name]) = some none := by
      intro t' ht'
      rw [Tree.view, viewOf, ht']
      rfl
    have hdir : t.view (join root tenantID) = some none := by
      refine t.parent _ name ?_
      rw [← Tree.view, hview t ht]
      simp
    have hname : ValidName name := t.valid _ (by rw [← Tree.view, hview t ht]; simp) name (by simp)
    have hread : t.readDir (join root tenantID) ≠ none := by simp [Tree.readDir, hdir]
    obtain ⟨entries, hentries⟩ := Option.ne_none_iff_exists'.1 hread
    have hmem := (t.mem_readDir hentries name (.dir m)).2 ht
    have hjoin : join (join root tenantID) name = join root tenantID ++ [name] := join_of_valid _ hname
    have hgone : (entries.foldl (sweepEntry now (join root tenantID) olderThan) (t, 0)).1.view
        (join (join root tenantID) name) = none := sweep_removes hmem hm (by rw [hjoin]; simp)
    rw [hjoin] at hgone
    have hpurge : (purge now root t tenantID olderThan).1 =
        (entries.foldl (sweepEntry now (join root tenantID) olderThan) (t, 0)).1 := by
      simp [purge, hsafe, hentries]
    rw [hpurge] at h
    rw [hview _ h] at hgone
    exact absurd hgone (by simp)
  · omega

theorem dated_delete (now : ℤ) (root : Path) (t : Tree) (tenantID recordingKey : Bytes) :
    t.Dated now (delete now root t tenantID recordingKey).1 := by
  unfold delete
  split
  · exact Tree.Dated.refl now t
  · exact t.dated_removeAll now _

/-- A file that is there after an `Append` was there before, or is the chunk. -/
theorem file_of_append {now seq : ℤ} {root p : Path} {s : Stream}
    {plain content : Bytes} (h : (append sealChunk now root t s seq plain).1.view p = some (some content)) :
    t.view p = some (some content) ∨ ∃ d, dir root s = .ok d ∧ p = d ++ [decimal seq ++ ascii ".bin"] := by
  cases hd : dir root s with
  | error e =>
    simp only [append, hd] at h
    exact Or.inl h
  | ok d =>
    have hmade := t.noNewFile_mkdirFrom now [] d
    simp only [append, hd] at h
    split_ifs at h
    · exact Or.inl (hmade p content h)
    · split at h
      · exact Or.inl (hmade p content h)
      · rw [join_of_valid d (chunkName_valid seq)] at h
        by_cases hp : p = d ++ [decimal seq ++ ascii ".bin"]
        · exact Or.inr ⟨d, rfl, hp⟩
        · refine Or.inl (hmade p content ?_)
          rw [← h]
          by_contra hne
          exact hp (Tree.view_writeFile _ now _ p _ (Ne.symm hne))

theorem dated_append (sealChunk : Bytes → Option Bytes) (now : ℤ) (root : Path) (t : Tree) (s : Stream) (seq : ℤ)
    (plain : Bytes) : t.Dated now (append sealChunk now root t s seq plain).1 := by
  unfold append
  split
  · exact Tree.Dated.refl now t
  · rename_i d hd
    have hmade : t.Dated now (t.mkdirAll now d).1 := t.dated_mkdirFrom now [] d
    simp only
    split_ifs
    · exact hmade
    · split
      · exact hmade
      · exact hmade.trans (Tree.dated_writeFile _ now _ _)

theorem stamped_append (sealChunk : Bytes → Option Bytes) (now : ℤ) (root : Path) (t : Tree) (s : Stream) (seq : ℤ) (plain : Bytes) :
    t.Stamped now (append sealChunk now root t s seq plain).1 := by
  unfold append
  split
  · exact Tree.Stamped.refl now t
  · rename_i d hd
    have hmade : t.Stamped now (t.mkdirAll now d).1 := t.stamped_mkdirFrom now [] d
    simp only
    split_ifs
    · exact hmade
    · split
      · exact hmade
      · rw [join_of_valid d (chunkName_valid seq)]
        exact hmade.trans (Tree.stamped_writeFile _ now d _ _)

end Captivo.RecStore
