import CaptivoAccess.Sanity.RecStore

/-! Which tenants, recordings and formats keep to themselves in the store. A dot
passes the segment check and disappears when the path is cleaned, and the purge
does not look for two dots, so these are the names that break the layout and the
only ones. -/

namespace Captivo.RecStore

open Lib.Utf8 Lib.FileTree

/-- The directory of a tenant, or something at or below the directory of the recording. -/
def OwnRecording (root : Path) (tenantID recordingKey : Bytes) (p : Path) : Prop :=
  p = root ++ [tenantID] ∨ root ++ [tenantID, recordingKey] <+: p

instance (root : Path) (tenantID recordingKey : Bytes) (p : Path) : Decidable (OwnRecording root tenantID recordingKey p) :=
  inferInstanceAs (Decidable (p = root ++ [tenantID] ∨ root ++ [tenantID, recordingKey] <+: p))

/-- What the layout of the store promises for the streams and the tenants in use, in every
tree that holds the root. -/
structure Isolated (sealChunk : Bytes → Option Bytes) (root : Path) (streams : Set Stream) (tenants : Set Bytes) :
    Prop where
  /-- A stream is three levels below the root. -/
  levels : ∀ s ∈ streams, ∀ d, dir root s = .ok d → ∃ a b c, d = root ++ [a, b, c]
  /-- No stream's directory is or contains another's. -/
  apart : ∀ s ∈ streams, ∀ s' ∈ streams, s ≠ s' → ∀ d d', dir root s = .ok d → dir root s' = .ok d' → ¬ d <+: d'
  append_own : ∀ s ∈ streams, ∀ (t : Tree) (now seq : ℤ) (plain : Bytes) (p : Path), t.view root = some none →
    (append sealChunk now root t s seq plain).1.view p ≠ t.view p → OwnRecording root s.tenantID s.recordingKey p
  delete_own : ∀ s ∈ streams, ∀ (t : Tree) (now : ℤ) (p : Path), t.view root = some none →
    (delete now root t s.tenantID s.recordingKey).1.view p ≠ t.view p → OwnRecording root s.tenantID s.recordingKey p
  purge_own : ∀ id ∈ tenants, ∀ (t : Tree) (now olderThan : ℤ) (p : Path), t.view root = some none →
    (purge now root t id olderThan).1.view p ≠ t.view p → root ++ [id] <+: p

/-- None of the three segments is a dot. -/
def Stream.DotFree (s : Stream) : Prop := s.tenantID ≠ [46] ∧ s.recordingKey ≠ [46] ∧ s.format ≠ [46]

theorem dir_of_dotFree {root d : Path} {s : Stream} (hs : s.DotFree) (h : dir root s = .ok d) :
    d = root ++ [s.tenantID, s.recordingKey, s.format] := by
  obtain ⟨-, -, -, rfl⟩ := dir_ok h
  rw [names_of_ne hs.1, names_of_ne hs.2.1, names_of_ne hs.2.2]
  rfl

theorem dotFree_of_levels {root d : Path} {s : Stream} (h : dir root s = .ok d)
    (hl : ∃ a b c, d = root ++ [a, b, c]) : s.DotFree := by
  obtain ⟨-, -, -, hd⟩ := dir_ok h
  obtain ⟨a, b, c, rfl⟩ := hl
  have hlen := congrArg List.length (List.append_cancel_left hd)
  simp only [List.length_append, List.length_cons, List.length_nil] at hlen
  have hle : ∀ x : Bytes, (names x).length = if x = [46] then 0 else 1 := by
    intro x
    unfold names
    split_ifs <;> rfl
  rw [hle, hle, hle] at hlen
  refine ⟨?_, ?_, ?_⟩ <;>
  · intro he
    rw [if_pos he] at hlen
    split_ifs at hlen <;> omega

variable {root p : Path} {t : Tree}

/-- What lies on the way to a recording and does not exist yet is the tenant's or the recording's. -/
theorem ownRecording_of_prefix {tenantID recordingKey format : Bytes}
    (hroot : t.view root = some none) (hp : t.view p = none)
    (h : p <+: root ++ [tenantID, recordingKey, format]) : OwnRecording root tenantID recordingKey p := by
  rcases List.prefix_or_prefix_of_prefix h (List.prefix_append root _) with hpr | ⟨r, rfl⟩
  · exact absurd hp (t.view_of_prefix (by rw [hroot]; simp) hpr)
  · rw [List.prefix_append_right_inj] at h
    match r, h with
    | [], _ => exact absurd hp (by rw [List.append_nil, hroot]; simp)
    | [a], h =>
      rw [List.cons_prefix_cons] at h
      exact Or.inl (by rw [h.1])
    | a :: b :: r, h =>
      rw [List.cons_prefix_cons, List.cons_prefix_cons] at h
      obtain ⟨rfl, rfl, -⟩ := h
      exact Or.inr ⟨r, by simp⟩

theorem append_own_of_dotFree {sealChunk : Bytes → Option Bytes} {s : Stream} {now seq : ℤ}
    {plain : Bytes} (hs : s.DotFree) (hroot : t.view root = some none)
    (h : (append sealChunk now root t s seq plain).1.view p ≠ t.view p) :
    OwnRecording root s.tenantID s.recordingKey p := by
  cases hd : dir root s with
  | error e => simp [append, hd] at h
  | ok d =>
    have hde := dir_of_dotFree hs hd
    rcases append_changes hd h with ⟨hn, hp⟩ | rfl
    · exact ownRecording_of_prefix hroot hn (hde ▸ hp)
    · refine Or.inr ⟨[s.format, decimal seq ++ ascii ".bin"], ?_⟩
      rw [hde]
      simp

theorem delete_own_of_dotFree {s : Stream} {now : ℤ} (hs : s.DotFree)
    (h : (delete now root t s.tenantID s.recordingKey).1.view p ≠ t.view p) :
    OwnRecording root s.tenantID s.recordingKey p := by
  cases hd : recDir root s.tenantID s.recordingKey with
  | error e => simp [delete, hd] at h
  | ok d =>
    obtain ⟨-, -, hde⟩ := recDir_ok hd
    rw [names_of_ne hs.1, names_of_ne hs.2.1, List.append_assoc] at hde
    exact Or.inr (hde ▸ delete_changes hd h)

theorem purge_own_of_name {id : Bytes} {now olderThan : ℤ} (h1 : id ≠ [46])
    (h2 : id ≠ [46, 46]) (h : (purge now root t id olderThan).1.view p ≠ t.view p) : root ++ [id] <+: p := by
  by_cases hs : safeSegment id = true
  · obtain ⟨entries, name, modTime, he, hm, hp⟩ := purge_changes h
    rw [join_of_valid root (safeSegment_valid hs h1 h2)] at he hp
    have hlook := (t.mem_readDir he name _).mp hm
    have hvalid : ValidName name :=
      t.valid (root ++ [id] ++ [name]) (by rw [viewOf, hlook]; simp) name (by simp)
    rw [join_of_valid _ hvalid] at hp
    exact (List.prefix_append _ _).trans hp
  · simp [purge, hs] at h

theorem purge_removes {root base : Path} {id name : Bytes} (now : ℤ) (hsafe : safeSegment id = true)
    (hjoin : join root id = base) (h : t.view (base ++ [name]) = some none) :
    ∃ olderThan, (purge now root t id olderThan).1.view (base ++ [name]) = none := by
  have hbase : t.view base = some none := t.view_of_append (by rw [h]; simp) (by simp)
  have hvalid : ValidName name := t.valid _ (by rw [Tree.view] at h; rw [h]; simp) name (by simp)
  obtain ⟨modTime, hlook⟩ : ∃ m, t.nodes.lookup (base ++ [name]) = some (.dir m) := by
    obtain ⟨n, hn, hk⟩ := Option.map_eq_some_iff.mp h
    cases n with
    | file c => simp [Node.kind] at hk
    | dir m => exact ⟨m, hn⟩
  obtain ⟨entries, hread⟩ : ∃ entries, t.readDir base = some entries := by
    unfold Tree.readDir
    rw [if_pos hbase]
    exact ⟨_, rfl⟩
  have hgone : (entries.foldl (sweepEntry now base (modTime + 1)) (t, 0)).1.view (join base name) = none :=
    sweep_removes ((t.mem_readDir hread name _).mpr hlook) (Int.lt_add_one_iff.mpr le_rfl)
      (by rw [join_of_valid _ hvalid]; simp)
  rw [join_of_valid _ hvalid] at hgone
  refine ⟨modTime + 1, ?_⟩
  simp only [purge, hsafe, hjoin, hread, Bool.true_eq_false, if_false, hgone]

theorem purge_dot {root : Path} (base : Path) {id : Bytes} (hroot : ∀ name ∈ root, ValidName name)
    (hid : id = [46] ∧ base = root ∨ id = [46, 46] ∧ base = root.dropLast) :
    ∃ (t : Tree) (now olderThan : ℤ) (p : Path), t.view root = some none ∧
      (purge now root t id olderThan).1.view p ≠ t.view p ∧ ¬ root ++ [id] <+: p := by
  set a : Bytes := [97]
  have ha : ValidName a := by decide
  have hnames : ∀ name ∈ root ++ [a], ValidName name := by
    intro name hn
    rcases List.mem_append.mp hn with hn | hn
    · exact hroot name hn
    · rw [List.mem_singleton.mp hn]
      exact ha
  -- a tree that holds the root and one directory in it
  set t := (Tree.mkdirFrom 0 (Tree.empty 0) [] (root ++ [a])).1
  have hlast : t.view (root ++ [a]) = some none :=
    Tree.view_mkdirFrom_last _ 0 [] (root ++ [a]) (Tree.view_top _) hnames (Tree.view_empty 0)
  have hr : t.view root = some none := t.view_of_append (by rw [hlast]; simp) (by simp)
  have hsafe : safeSegment id = true := by rcases hid with ⟨rfl, -⟩ | ⟨rfl, -⟩ <;> decide
  have hjoin : join root id = base := by rcases hid with ⟨rfl, rfl⟩ | ⟨rfl, rfl⟩ <;> rfl
  -- the swept directory holds the next directory on the way
  obtain ⟨name, hname⟩ : ∃ name, t.view (base ++ [name]) = some none := by
    rcases hid with ⟨-, rfl⟩ | ⟨-, rfl⟩
    · exact ⟨a, hlast⟩
    · by_cases hnil : root = []
      · exact ⟨a, by rw [hnil] at hlast ⊢; exact hlast⟩
      · exact ⟨root.getLast hnil, by rw [List.dropLast_append_getLast]; exact hr⟩
  obtain ⟨olderThan, hgone⟩ := purge_removes 0 hsafe hjoin hname
  refine ⟨t, 0, olderThan, base ++ [name], hr, by rw [hgone, hname]; simp, ?_⟩
  intro hp
  have hv : ValidName id :=
    t.valid _ (by rw [Tree.view] at hname; rw [hname]; simp) id (hp.subset (by simp))
  rcases hid with ⟨rfl, -⟩ | ⟨rfl, -⟩
  · exact hv.2.1 rfl
  · exact hv.2.2.1 rfl

/-- The store keeps the layout it promises if and only if no segment of a stream is a dot
and no tenant that is purged is one dot or two. -/
theorem isolated_iff (sealChunk : Bytes → Option Bytes) (root : Path) (streams : Set Stream) (tenants : Set Bytes)
    (hroot : ∀ name ∈ root, ValidName name) (hstreams : ∀ s ∈ streams, ∃ d, dir root s = .ok d) :
    Isolated sealChunk root streams tenants ↔
      (∀ s ∈ streams, s.DotFree) ∧ ∀ id ∈ tenants, id ≠ [46] ∧ id ≠ [46, 46] := by
  constructor
  · intro h
    refine ⟨fun s hs => ?_, fun id hid => ⟨?_, ?_⟩⟩
    · obtain ⟨d, hd⟩ := hstreams s hs
      exact dotFree_of_levels hd (h.levels s hs d hd)
    · intro he
      obtain ⟨t, now, olderThan, p, hr, hc, hp⟩ := purge_dot root hroot (Or.inl ⟨he, rfl⟩)
      exact hp (h.purge_own id hid t now olderThan p hr hc)
    · intro he
      obtain ⟨t, now, olderThan, p, hr, hc, hp⟩ := purge_dot root.dropLast hroot (Or.inr ⟨he, rfl⟩)
      exact hp (h.purge_own id hid t now olderThan p hr hc)
  · rintro ⟨hs, ht⟩
    exact {
      levels := fun s hm d hd => ⟨_, _, _, dir_of_dotFree (hs s hm) hd⟩
      apart := by
        intro s hm s' hm' hne d d' hd hd' hp
        rw [dir_of_dotFree (hs s hm) hd, dir_of_dotFree (hs s' hm') hd', List.prefix_append_right_inj] at hp
        have he := hp.eq_of_length rfl
        simp only [List.cons.injEq, and_true] at he
        apply hne
        cases s
        cases s'
        simp only [Stream.mk.injEq]
        exact he
      append_own := fun s hm t now seq plain p hr hc => append_own_of_dotFree (hs s hm) hr hc
      delete_own := fun s hm t now p _ hc => delete_own_of_dotFree (hs s hm) hc
      purge_own := fun id hm t now olderThan p _ hc => purge_own_of_name (ht id hm).1 (ht id hm).2 hc }

/-- The store root by default. -/
def defaultRoot : Path := [ascii "data", ascii "recordings"]

/-- Two streams of one session, and the purge of its tenant. -/
theorem isolated_iff_acme :
    ((∀ name ∈ defaultRoot, ValidName name) ∧
      ∀ s ∈ ({⟨ascii "acme", ascii "sess-1", ascii "guac"⟩, ⟨ascii "acme", ascii "sess-1", ascii "keys"⟩} : Set Stream),
        ∃ d, dir defaultRoot s = .ok d) ∧
    (Isolated some defaultRoot
        {⟨ascii "acme", ascii "sess-1", ascii "guac"⟩, ⟨ascii "acme", ascii "sess-1", ascii "keys"⟩} {ascii "acme"} ↔
      (∀ s ∈ ({⟨ascii "acme", ascii "sess-1", ascii "guac"⟩, ⟨ascii "acme", ascii "sess-1", ascii "keys"⟩} : Set Stream),
        s.DotFree) ∧ ∀ id ∈ ({ascii "acme"} : Set Bytes), id ≠ [46] ∧ id ≠ [46, 46]) := by
  have hroot : ∀ name ∈ defaultRoot, ValidName name := by decide
  have hstreams : ∀ s ∈ ({⟨ascii "acme", ascii "sess-1", ascii "guac"⟩,
      ⟨ascii "acme", ascii "sess-1", ascii "keys"⟩} : Set Stream), ∃ d, dir defaultRoot s = .ok d := by
    rintro s (rfl | rfl)
    · exact ⟨[ascii "data", ascii "recordings", ascii "acme", ascii "sess-1", ascii "guac"], by rfl⟩
    · exact ⟨[ascii "data", ascii "recordings", ascii "acme", ascii "sess-1", ascii "keys"], by rfl⟩
  exact ⟨⟨hroot, hstreams⟩, isolated_iff some defaultRoot _ _ hroot hstreams⟩

/-- A store with one chunk of one recording of the tenant `victim`. -/
def victimTree : Tree :=
  (append some 0 defaultRoot (Tree.empty 0) ⟨ascii "victim", ascii "sess-1", ascii "guac"⟩ 0 (ascii "x")).1

/-- Deleting the recording `victim` of the tenant `.` takes away every recording of the tenant `victim`. -/
theorem delete_dot_removes_tenant :
    recDir defaultRoot (ascii ".") (ascii "victim") = .ok (defaultRoot ++ [ascii "victim"]) ∧
    ¬ ∀ p, (delete 1 defaultRoot victimTree (ascii ".") (ascii "victim")).1.view p ≠ victimTree.view p →
      OwnRecording defaultRoot (ascii ".") (ascii "victim") p := by
  refine ⟨rfl, fun h => ?_⟩
  have hp := h (defaultRoot ++ [ascii "victim", ascii "sess-1", ascii "guac", ascii "0.bin"]) (by decide +kernel)
  revert hp
  decide +kernel

end Captivo.RecStore
