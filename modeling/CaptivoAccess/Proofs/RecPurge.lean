import CaptivoAccess.Sanity.RecRead

/-! What the retention sweep of a connector takes away. It goes by the time a directory in the
tenant's was last modified, which is when something was last made right in it: the chunks
of a recording are one level deeper, and only the begin of a stream counts. -/

namespace Captivo.RecStore

open Lib.Utf8 Lib.FileTree

/-! Histories. -/

/-- A call of `Append`, with the nonce its chunk is sealed with. -/
structure Write where
  now : ℤ
  nonce : Bytes
  stream : Stream
  seq : ℤ
  plain : Bytes

/-- The tree, when each chunk was last written, and when something was last made in each directory. -/
structure History where
  tree : Tree
  written : Path → Option ℤ
  grown : Path → Option ℤ

section

open Classical

/-- A call, and what it leaves behind. -/
noncomputable def History.append (c : Cipher) (root : Path) (h : History) (w : Write) : History :=
  let done := RecStore.append (c.sealWith w.nonce) w.now root h.tree w.stream w.seq w.plain
  { tree := done.1
    written := fun p =>
      match dir root w.stream with
      | .ok d => if done.2.isOk ∧ p = d ++ [decimal w.seq ++ ascii ".bin"] then some w.now else h.written p
      | .error _ => h.written p
    grown := fun q => if Tree.Grew h.tree done.1 q then some w.now else h.grown q }

end

/-- All calls on a store that is new. -/
noncomputable def history (c : Cipher) (root : Path) (start : ℤ) (writes : List Write) : History :=
  writes.foldl (History.append c root) ⟨Tree.empty start, fun _ => none, fun q => if q = [] then some start else none⟩

/-- Every directory was last modified when something was last made in it, and every chunk that was written is there. -/
structure Faithful (h : History) : Prop where
  times : ∀ q m, h.tree.nodes.lookup q = some (.dir m) → h.grown q = some m
  files : ∀ p time, h.written p = some time → ∃ content, h.tree.view p = some (some content)

theorem faithful_append (c : Cipher) (root : Path) {h : History} (hf : Faithful h) (w : Write) :
    Faithful (h.append c root w) := by
  have hstamped := stamped_append (c.sealWith w.nonce) w.now root h.tree w.stream w.seq w.plain
  constructor
  · intro q m hq
    simp only [History.append] at hq ⊢
    split_ifs with hgrew
    · rw [hstamped.grew q m hq hgrew]
    · exact hf.times q m (hstamped.same q m hq hgrew)
  · intro p time hp
    have hold : h.written p = some time → ∃ content, (h.append c root w).tree.view p = some (some content) := by
      intro hp
      obtain ⟨content, hview⟩ := hf.files p time hp
      exact hstamped.files p content hview
    simp only [History.append] at hp
    cases hd : dir root w.stream with
    | error e =>
      rw [hd] at hp
      exact hold hp
    | ok d =>
      rw [hd] at hp
      simp only at hp
      split_ifs at hp with hnew
      · obtain ⟨hok, rfl⟩ := hnew
        obtain ⟨sealed, -, hview⟩ := append_stored hd hok
        exact ⟨sealed, hview⟩
      · exact hold hp

theorem faithful_history (c : Cipher) (root : Path) (start : ℤ) (writes : List Write) : Faithful (history c root start writes) := by
  have hrun : ∀ h : History, Faithful h → Faithful (writes.foldl (History.append c root) h) := by
    induction writes with
    | nil => exact fun h hf => hf
    | cons w writes ih => exact fun h hf => ih _ (faithful_append c root hf w)
  refine hrun _ ⟨?_, ?_⟩
  · intro q m hq
    by_cases htop : q = []
    · subst htop
      have hlookup : (Tree.empty start).nodes.lookup [] = some (.dir start) := rfl
      rw [hlookup] at hq
      exact congrArg some (Node.dir.inj (Option.some.inj hq))
    · have hview : (Tree.empty start).view q = some none := by
        rw [Tree.view, viewOf, hq]
        rfl
      rw [Tree.view, Tree.empty, Tree.viewOf_singleton_ne _ htop] at hview
      cases hview
  · intro p time hp
    cases hp

/-! The sweep. -/

/-- What is gone after a sweep was in an old entry of the tenant's directory, and everything there is gone. -/
theorem purge_view {now olderThan : ℤ} {root p : Path} {t : Tree} {tenantID : Bytes} (hp : t.view p ≠ none) :
    (purge now root t tenantID olderThan).1.view p ≠ t.view p ↔
      safeSegment tenantID = true ∧ ∃ name modTime, t.nodes.lookup (join root tenantID ++ [name]) = some (.dir modTime) ∧
        modTime < olderThan ∧ join root tenantID ++ [name] <+: p := by
  have hjoin : ∀ name n, t.nodes.lookup (join root tenantID ++ [name]) = some n →
      join (join root tenantID) name = join root tenantID ++ [name] := by
    intro name n hn
    have hview : viewOf t.nodes (join root tenantID ++ [name]) ≠ none := by
      rw [viewOf, hn]
      simp
    exact join_of_valid _ (t.valid _ hview name (by simp))
  by_cases hsafe : safeSegment tenantID = false
  · simp [purge, hsafe]
  · have hread : ∀ name n, t.nodes.lookup (join root tenantID ++ [name]) = some n →
        ∃ entries, t.readDir (join root tenantID) = some entries := by
      intro name n hn
      have hdir : t.view (join root tenantID) = some none := by
        refine t.parent _ name ?_
        rw [viewOf, hn]
        simp
      exact Option.ne_none_iff_exists'.1 (by simp [Tree.readDir, hdir])
    rw [Bool.not_eq_false] at hsafe
    cases hentries : t.readDir (join root tenantID) with
    | none =>
      refine iff_of_false (by simp [purge, hsafe, hentries]) ?_
      rintro ⟨-, name, modTime, hdir, -⟩
      obtain ⟨entries, he⟩ := hread name _ hdir
      rw [hentries] at he
      cases he
    | some entries =>
      have hpurge : (purge now root t tenantID olderThan).1 =
          (entries.foldl (sweepEntry now (join root tenantID) olderThan) (t, 0)).1 := by
        simp [purge, hsafe, hentries]
      rw [hpurge]
      constructor
      · intro hchanged
        obtain hsame | ⟨name, modTime, hmem, hold, hbelow⟩ := @sweep_view now olderThan (join root tenantID) p entries (t, 0)
        · exact absurd hsame hchanged
        · have hdir := (t.mem_readDir hentries name (.dir modTime)).1 hmem
          exact ⟨hsafe, name, modTime, hdir, hold, hjoin name _ hdir ▸ hbelow.1⟩
      · rintro ⟨-, name, modTime, hdir, hold, hbelow⟩
        have hmem := (t.mem_readDir hentries name (.dir modTime)).2 hdir
        have hne : join (join root tenantID) name ≠ [] := by
          rw [hjoin name _ hdir]
          simp
        have hgone := @sweep_removes now olderThan modTime (join root tenantID) name entries (t, 0) hmem hold hne
        rw [hjoin name _ hdir] at hgone
        intro hsame
        rw [← hsame] at hp
        exact Tree.view_of_prefix _ hp hbelow hgone

/-- Something was made at or after the cutoff right in every entry of the directory that a chunk written then lies in. -/
def YoungEntries (h : History) (base : Path) (cutoff : ℤ) : Prop :=
  ∀ p time, h.written p = some time → cutoff ≤ time → ∀ name rest, p = base ++ name :: rest → rest ≠ [] →
    ∃ grown, h.grown (base ++ [name]) = some grown ∧ cutoff ≤ grown

/-- After any calls of `Append`: the sweep of a tenant leaves every chunk that was written at or after the cutoff, if and only if
something was made at or after it right in each entry of the tenant's directory that such a chunk lies in. -/
theorem purge_spares_young_iff (c : Cipher) (root : Path) (start : ℤ) (writes : List Write) (now : ℤ) (tenantID : Bytes) (cutoff : ℤ) :
    let h := history c root start writes
    (∀ p time, h.written p = some time → cutoff ≤ time → (purge now root h.tree tenantID cutoff).1.view p = h.tree.view p) ↔
      (safeSegment tenantID = true → YoungEntries h (join root tenantID) cutoff) := by
  intro h
  have hf : Faithful h := faithful_history c root start writes
  constructor
  · intro hspared hsafe p time hwritten hyoung name rest hp hrest
    obtain ⟨content, hview⟩ := hf.files p time hwritten
    have hsome : h.tree.view p ≠ none := by simp [hview]
    have hdir : h.tree.view (join root tenantID ++ [name]) = some none := by
      refine h.tree.view_of_append (r := rest) ?_ hrest
      rwa [List.append_assoc, List.singleton_append, ← hp]
    obtain ⟨node, hnode, hkind⟩ := Option.map_eq_some_iff.1 hdir
    cases node with
    | file content' => cases hkind
    | dir modTime =>
      refine ⟨modTime, hf.times _ modTime hnode, ?_⟩
      by_contra hold
      refine (purge_view hsome).2 ⟨hsafe, name, modTime, hnode, lt_of_not_ge hold, rest, ?_⟩ (hspared p time hwritten hyoung)
      rw [hp, List.append_assoc, List.singleton_append]
  · intro hyoungs p time hwritten hyoung
    obtain ⟨content, hview⟩ := hf.files p time hwritten
    have hsome : h.tree.view p ≠ none := by simp [hview]
    by_contra hchanged
    obtain ⟨hsafe, name, modTime, hnode, hold, rest, rfl⟩ := (purge_view hsome).1 hchanged
    have hrest : rest ≠ [] := by
      rintro rfl
      rw [List.append_nil, h.tree.view_eq_file, hnode] at hview
      cases hview
    obtain ⟨grown, hgrown, hcutoff⟩ := hyoungs hsafe _ time hwritten hyoung name rest (by simp) hrest
    rw [hf.times _ modTime hnode, Option.some.injEq] at hgrown
    omega

/-- A recording of two chunks, with a hundred days between them. -/
def longRecording : List Write :=
  [⟨0, [], ⟨ascii "t", ascii "k", ascii "guac"⟩, 0, [1]⟩, ⟨100, [], ⟨ascii "t", ascii "k", ascii "guac"⟩, 1, [2]⟩]

/-- The second one is gone after a sweep of what is older than fifty. -/
theorem young_chunk_purged :
    (history unsealed [] 0 longRecording).written [ascii "t", ascii "k", ascii "guac", ascii "1.bin"] = some 100 ∧
      (history unsealed [] 0 longRecording).tree.view [ascii "t", ascii "k", ascii "guac", ascii "1.bin"] = some (some [2]) ∧
      (purge 120 [] (history unsealed [] 0 longRecording).tree (ascii "t") 50).1.view
        [ascii "t", ascii "k", ascii "guac", ascii "1.bin"] = none := by
  decide +kernel

end Captivo.RecStore
