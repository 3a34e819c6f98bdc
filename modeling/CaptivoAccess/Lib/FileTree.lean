import CaptivoAccess.Lib.Utf8
import Mathlib.Data.List.AList

/-! A tree of files and directories without links, and the calls that change it:
making a directory with its parents, writing a file, removing a subtree. A path is
the list of names from the top. Two trees are compared by `view`, which forgets
when a directory was last modified. -/

namespace Lib.FileTree

open Lib.Utf8

abbrev Path := List Bytes

inductive Node where
  | file (content : Bytes)
  | dir (modTime : ℤ)
  deriving DecidableEq

/-- What a directory entry can be called. -/
def ValidName (name : Bytes) : Prop := name ≠ [] ∧ name ≠ [46] ∧ name ≠ [46, 46] ∧ 47 ∉ name ∧ 0 ∉ name

instance (name : Bytes) : Decidable (ValidName name) :=
  inferInstanceAs (Decidable (name ≠ [] ∧ name ≠ [46] ∧ name ≠ [46, 46] ∧ 47 ∉ name ∧ 0 ∉ name))

/-- A node up to the time of its last modification: a file's content, or `none` for a directory. -/
def Node.kind : Node → Option Bytes
  | .file content => some content
  | .dir _ => none

abbrev Nodes := AList fun _ : Path => Node

def viewOf (nodes : Nodes) (p : Path) : Option (Option Bytes) := (nodes.lookup p).map Node.kind

/-- The top is a directory, every entry is in a directory, and every name is valid. -/
structure Tree where
  nodes : Nodes
  top : viewOf nodes [] = some none
  parent : ∀ p name, viewOf nodes (p ++ [name]) ≠ none → viewOf nodes p = some none
  valid : ∀ p, viewOf nodes p ≠ none → ∀ name ∈ p, ValidName name

namespace Tree

variable (t : Tree)

def view (p : Path) : Option (Option Bytes) := viewOf t.nodes p

/-- A node can be put at `p`: its parent is a directory and no directory becomes a file. -/
structure Settable (p : Path) (n : Node) : Prop where
  stays : t.view p = some none → n.kind = none
  inside : p ≠ [] → t.view p.dropLast = some none
  names : ∀ name ∈ p, ValidName name

instance (p : Path) (n : Node) : Decidable (t.Settable p n) :=
  decidable_of_iff ((t.view p = some none → n.kind = none) ∧ (p ≠ [] → t.view p.dropLast = some none) ∧
    ∀ name ∈ p, ValidName name) ⟨fun h => ⟨h.1, h.2.1, h.2.2⟩, fun h => ⟨h.1, h.2, h.3⟩⟩

theorem viewOf_insert (nodes : Nodes) (p q : Path) (n : Node) :
    viewOf (nodes.insert p n) q = if q = p then some n.kind else viewOf nodes q := by
  unfold viewOf
  split_ifs with h
  · subst h
    rw [AList.lookup_insert]
    rfl
  · rw [AList.lookup_insert_ne h]

/-- `t` with `n` at `p`. -/
def set (p : Path) (n : Node) (h : t.Settable p n) : Tree where
  nodes := t.nodes.insert p n
  top := by
    rw [viewOf_insert]
    split_ifs with hp
    · rw [h.stays (hp ▸ t.top)]
    · exact t.top
  parent := by
    intro q name hq
    rw [viewOf_insert] at hq ⊢
    have hdir : viewOf t.nodes q = some none := by
      split_ifs at hq with hqp
      · have hin := h.inside (by rw [← hqp]; simp)
        rwa [← hqp, List.dropLast_concat] at hin
      · exact t.parent q name hq
    split_ifs with hqp
    · rw [h.stays (hqp ▸ hdir)]
    · exact hdir
  valid := by
    intro q hq
    rw [viewOf_insert] at hq
    split_ifs at hq with hqp
    · rw [hqp]
      exact h.names
    · exact t.valid q hq

@[simp] theorem view_set (p q : Path) (n : Node) (h : t.Settable p n) :
    (t.set p n h).view q = if q = p then some n.kind else t.view q := viewOf_insert t.nodes p q n

theorem view_top : t.view [] = some none := t.top

theorem view_of_append {p r : Path} (h : t.view (p ++ r) ≠ none) (hr : r ≠ []) : t.view p = some none := by
  induction r using List.reverseRecOn with
  | nil => exact absurd rfl hr
  | append_singleton r name ih =>
    rw [← List.append_assoc] at h
    have hdir := t.parent _ _ h
    by_cases hr' : r = []
    · rwa [hr', List.append_nil] at hdir
    · exact ih (by rw [view, hdir]; simp) hr'

variable {p : Path} (now : ℤ)

theorem settable_dir (h : t.view p = some none) : t.Settable p (.dir now) where
  stays _ := rfl
  inside hp := by
    rw [← List.dropLast_append_getLast hp] at h
    exact t.parent _ _ (by rw [view] at h; rw [h]; simp)
  names := t.valid p (by rw [view] at h; rw [h]; simp)

/-- A directory is modified. -/
def touch (now : ℤ) (p : Path) : Tree :=
  if h : t.view p = some none then t.set p (.dir now) (t.settable_dir now h) else t

@[simp] theorem view_touch (p q : Path) : (t.touch now p).view q = t.view q := by
  unfold touch
  split_ifs with h
  · rw [view_set]
    split_ifs with hq
    · rw [hq, h]
      rfl
    · rfl
  · rfl

/-- `os.MkdirAll` below `base`, one name at a time. A file in the way ends it, and what was
made before stays. -/
def mkdirFrom (now : ℤ) (t : Tree) (base : Path) : List Bytes → Tree × Bool
  | [] => (t, true)
  | name :: rest =>
    match t.view (base ++ [name]) with
    | some none => mkdirFrom now t (base ++ [name]) rest
    | some (some _) => (t, false)
    | none =>
      if h : t.Settable (base ++ [name]) (.dir now) then
        mkdirFrom now ((t.set (base ++ [name]) (.dir now) h).touch now base) (base ++ [name]) rest
      else (t, false)

def mkdirAll (now : ℤ) (p : Path) : Tree × Bool := mkdirFrom now t [] p

/-- `os.WriteFile`: a new file modifies its directory, an old one is overwritten. -/
def writeFile (now : ℤ) (p : Path) (content : Bytes) : Tree × Bool :=
  if t.view p = some none then (t, false)
  else if h : t.Settable p (.file content) then
    if t.view p = none then ((t.set p (.file content) h).touch now p.dropLast, true)
    else (t.set p (.file content) h, true)
  else (t, false)

/-- Whether removing `p` takes `q` away. The top is never removed. -/
def Below (p q : Path) : Prop := p <+: q ∧ q ≠ []

instance (p q : Path) : Decidable (Below p q) := inferInstanceAs (Decidable (p <+: q ∧ q ≠ []))

def keep (p : Path) : Nodes :=
  ⟨t.nodes.entries.filter fun e => ¬ Below p e.1, t.nodes.nodupKeys.sublist List.filter_sublist⟩

theorem viewOf_keep (p q : Path) : viewOf (t.keep p) q = if Below p q then none else t.view q := by
  have hmem : ∀ n, (t.keep p).lookup q = some n ↔ ¬ Below p q ∧ t.nodes.lookup q = some n := by
    intro n
    rw [← Option.mem_def, AList.mem_lookup_iff, ← Option.mem_def, AList.mem_lookup_iff]
    simp [keep, and_comm]
  unfold view viewOf
  split_ifs with h
  · have : (t.keep p).lookup q = none := by
      rw [Option.eq_none_iff_forall_not_mem]
      exact fun n hn => ((hmem n).mp hn).1 h
    rw [this]
    rfl
  · congr 1
    apply Option.ext
    intro n
    rw [hmem n]
    simp [h]

def remove (p : Path) : Tree where
  nodes := t.keep p
  top := by
    rw [viewOf_keep, if_neg (by simp [Below])]
    exact t.top
  parent := by
    intro q name hq
    rw [viewOf_keep] at hq ⊢
    split_ifs at hq with hqn
    · exact absurd rfl hq
    · rw [if_neg fun hb => hqn ⟨hb.1.trans (List.prefix_append _ _), by simp⟩]
      exact t.parent q name hq
  valid := by
    intro q hq
    rw [viewOf_keep] at hq
    split_ifs at hq with hqn
    · exact absurd rfl hq
    · exact t.valid q hq

/-- `os.RemoveAll`: everything at and below `p`, where nothing there is no error. -/
def removeAll (now : ℤ) (p : Path) : Tree × Bool :=
  if t.view p = none then (t, true) else ((t.remove p).touch now p.dropLast, p ≠ [])

theorem view_of_prefix {p q : Path} (h : t.view q ≠ none) (hpq : p <+: q) : t.view p ≠ none := by
  obtain ⟨r, rfl⟩ := hpq
  by_cases hr : r = []
  · rwa [hr, List.append_nil] at h
  · rw [t.view_of_append h hr]
    simp

@[simp] theorem view_removeAll (p q : Path) :
    (t.removeAll now p).1.view q = if Below p q then none else t.view q := by
  unfold removeAll
  split_ifs with hp hb hb
  · by_contra hq
    exact t.view_of_prefix hq hb.1 hp
  · rfl
  · rw [view_touch]
    exact (t.viewOf_keep p q).trans (if_pos hb)
  · rw [view_touch]
    exact (t.viewOf_keep p q).trans (if_neg hb)

theorem view_mkdirFrom (base q : Path) (rest : List Bytes)
    (h : (mkdirFrom now t base rest).1.view q ≠ t.view q) :
    t.view q = none ∧ ∃ r, r ≠ [] ∧ r <+: rest ∧ q = base ++ r := by
  induction rest generalizing t base with
  | nil => exact absurd rfl h
  | cons name rest ih =>
    have longer : ∀ r, r <+: rest → q = base ++ [name] ++ r →
        ∃ r, r ≠ [] ∧ r <+: name :: rest ∧ q = base ++ r := by
      intro r hr hq
      refine ⟨name :: r, by simp, ?_, by rw [hq, List.append_assoc]; rfl⟩
      rw [List.cons_prefix_cons]
      exact ⟨rfl, hr⟩
    simp only [mkdirFrom] at h
    split at h
    · obtain ⟨hn, r, -, hr, hq⟩ := ih t (base ++ [name]) h
      exact ⟨hn, longer r hr hq⟩
    · exact absurd rfl h
    · rename_i hnone
      split_ifs at h with hset
      · by_cases hq : q = base ++ [name]
        · exact ⟨hq ▸ hnone, longer [] (List.nil_prefix) (by rw [hq, List.append_nil])⟩
        · have hsame : ((t.set (base ++ [name]) (.dir now) hset).touch now base).view q = t.view q := by
            rw [view_touch, view_set, if_neg hq]
          rw [← hsame] at h ⊢
          obtain ⟨hn, r, -, hr, hq⟩ := ih _ (base ++ [name]) h
          exact ⟨hn, longer r hr hq⟩
      · exact absurd rfl h

theorem view_mkdirFrom_last (base : Path) (rest : List Bytes) (hbase : t.view base = some none)
    (hnames : ∀ name ∈ base ++ rest, ValidName name) (hfiles : ∀ q c, t.view q ≠ some (some c)) :
    (mkdirFrom now t base rest).1.view (base ++ rest) = some none := by
  induction rest generalizing t base with
  | nil => simpa only [mkdirFrom, List.append_nil] using hbase
  | cons name rest ih =>
    have hcons : base ++ name :: rest = base ++ [name] ++ rest := by simp
    rw [hcons] at hnames ⊢
    simp only [mkdirFrom]
    split
    · rename_i hdir
      exact ih t _ hdir hnames hfiles
    · rename_i c hfile
      exact absurd hfile (hfiles _ c)
    · rename_i hnone
      have hset : t.Settable (base ++ [name]) (.dir now) :=
        ⟨fun _ => rfl, fun _ => by rwa [List.dropLast_concat],
          fun x hx => hnames x (List.mem_append_left _ hx)⟩
      rw [dif_pos hset]
      apply ih _ _ _ hnames
      · intro q c
        rw [view_touch, view_set]
        split_ifs
        · simp [Node.kind]
        · exact hfiles q c
      · rw [view_touch, view_set, if_pos rfl]
        rfl

theorem view_writeFile (p q : Path) (content : Bytes)
    (h : (t.writeFile now p content).1.view q ≠ t.view q) : q = p := by
  by_contra hq
  apply h
  unfold writeFile
  split_ifs with hdir hset hnew
  · rfl
  · rw [view_touch, view_set, if_neg hq]
  · rw [view_set, if_neg hq]
  · rfl

theorem view_writeFile_self {now : ℤ} {content : Bytes} (h : (t.writeFile now p content).2 = true) :
    (t.writeFile now p content).1.view p = some (some content) := by
  unfold writeFile at h ⊢
  split_ifs at h ⊢ with hdir hset hnew
  · rw [view_touch, view_set, if_pos rfl]
    rfl
  · rw [view_set, if_pos rfl]
    rfl

theorem writeFile_failed {now : ℤ} {content : Bytes} (h : (t.writeFile now p content).2 = false) :
    (t.writeFile now p content).1 = t := by
  unfold writeFile at h ⊢
  split_ifs at h ⊢ <;> rfl

/-! What a call leaves alone: it brings no file, or no time but the present. -/

/-- Every file was there before. -/
def NoNewFile (t t' : Tree) : Prop := ∀ q c, t'.view q = some (some c) → t.view q = some (some c)

/-- Every directory was last modified when it was before, or now. -/
def Dated (now : ℤ) (t t' : Tree) : Prop :=
  ∀ q m, t'.nodes.lookup q = some (.dir m) → t.nodes.lookup q = some (.dir m) ∨ m = now

variable {t}

theorem NoNewFile.trans {t' t'' : Tree} (h : NoNewFile t t') (h' : NoNewFile t' t'') : NoNewFile t t'' :=
  fun q c hq => h q c (h' q c hq)

theorem Dated.refl (t : Tree) : Dated now t t := fun _ _ h => Or.inl h

theorem Dated.trans {now : ℤ} {t' t'' : Tree} (h : Dated now t t') (h' : Dated now t' t'') : Dated now t t'' := by
  intro q m hq
  rcases h' q m hq with hq | rfl
  · exact h q m hq
  · exact Or.inr rfl

theorem noNewFile_removeAll (t : Tree) (now : ℤ) (p : Path) : NoNewFile t (t.removeAll now p).1 := by
  intro q c hq
  rw [view_removeAll] at hq
  split_ifs at hq
  exact hq

theorem noNewFile_mkdirFrom (t : Tree) (now : ℤ) (base : Path) (rest : List Bytes) :
    NoNewFile t (mkdirFrom now t base rest).1 := by
  induction rest generalizing t base with
  | nil => exact fun _ _ h => h
  | cons name rest ih =>
    simp only [mkdirFrom]
    split
    · exact ih t _
    · exact fun _ _ h => h
    · split_ifs with hset
      · refine NoNewFile.trans (fun q c hq => ?_) (ih _ _)
        rw [view_touch, view_set] at hq
        split_ifs at hq
        · exact absurd hq (by simp [Node.kind])
        · exact hq
      · exact fun _ _ h => h

theorem dated_set {n : Node} {now : ℤ} (h : t.Settable p n) (hn : ∀ m, n = .dir m → m = now) :
    Dated now t (t.set p n h) := by
  intro q m hq
  by_cases hqp : q = p
  · rw [hqp] at hq
    exact Or.inr (hn m (Option.some.inj ((AList.lookup_insert _).symm.trans hq)))
  · exact Or.inl ((AList.lookup_insert_ne hqp).symm.trans hq)

theorem dated_touch (t : Tree) (now : ℤ) (p : Path) : Dated now t (t.touch now p) := by
  unfold touch
  split_ifs with h
  · exact dated_set _ fun m hm => (Node.dir.inj hm).symm
  · exact Dated.refl now t

theorem dated_removeAll (t : Tree) (now : ℤ) (p : Path) : Dated now t (t.removeAll now p).1 := by
  unfold removeAll
  split_ifs
  · exact Dated.refl now t
  · refine Dated.trans (fun q m hq => Or.inl ?_) (dated_touch _ now _)
    rw [← Option.mem_def, AList.mem_lookup_iff] at hq ⊢
    exact (List.mem_filter.1 hq).1

theorem dated_mkdirFrom (t : Tree) (now : ℤ) (base : Path) (rest : List Bytes) :
    Dated now t (mkdirFrom now t base rest).1 := by
  induction rest generalizing t base with
  | nil => exact Dated.refl now t
  | cons name rest ih =>
    simp only [mkdirFrom]
    split
    · exact ih t _
    · exact Dated.refl now t
    · split_ifs with hset
      · exact ((dated_set hset fun m hm => (Node.dir.inj hm).symm).trans (dated_touch _ now base)).trans (ih _ _)
      · exact Dated.refl now t

theorem dated_writeFile (t : Tree) (now : ℤ) (p : Path) (content : Bytes) : Dated now t (t.writeFile now p content).1 := by
  have hfile : ∀ m, Node.file content = .dir m → m = now := fun m h => nomatch h
  unfold writeFile
  split_ifs with hdir hset hnew
  · exact Dated.refl now t
  · exact (dated_set hset hfile).trans (dated_touch _ now _)
  · exact dated_set hset hfile
  · exact Dated.refl now t

/-! When a directory was last modified: when it was made, or when the last entry was made in it. -/

/-- The directory is new, or something in it is. -/
def Grew (t t' : Tree) (q : Path) : Prop :=
  (t.view q = none ∧ t'.view q ≠ none) ∨ ∃ name, t.view (q ++ [name]) = none ∧ t'.view (q ++ [name]) ≠ none

/-- Nothing goes away, a file stays a file, and the directories that grew, and no others, are modified now. -/
structure Stamped (now : ℤ) (t t' : Tree) : Prop where
  keeps : ∀ q, t.view q ≠ none → t'.view q ≠ none
  files : ∀ q c, t.view q = some (some c) → ∃ c', t'.view q = some (some c')
  grew : ∀ q m, t'.nodes.lookup q = some (.dir m) → Grew t t' q → m = now
  same : ∀ q m, t'.nodes.lookup q = some (.dir m) → ¬ Grew t t' q → t.nodes.lookup q = some (.dir m)

theorem not_grew_self (t : Tree) (q : Path) : ¬ Grew t t q := by
  rintro (⟨hnone, hsome⟩ | ⟨name, hnone, hsome⟩)
  · exact hsome hnone
  · exact hsome hnone

theorem Stamped.refl (t : Tree) : Stamped now t t :=
  ⟨fun _ h => h, fun _ c h => ⟨c, h⟩, fun q _ _ h => absurd h (not_grew_self t q), fun _ _ h _ => h⟩

theorem Stamped.trans {now : ℤ} {t t' t'' : Tree} (h : Stamped now t t') (h' : Stamped now t' t'') : Stamped now t t'' := by
  -- what was made on the way is still there at the end
  have hgrew : ∀ q, Grew t t'' q ↔ Grew t t' q ∨ Grew t' t'' q := by
    have hpath : ∀ q, (t.view q = none ∧ t''.view q ≠ none) ↔
        (t.view q = none ∧ t'.view q ≠ none) ∨ (t'.view q = none ∧ t''.view q ≠ none) := by
      intro q
      have hkeeps := h.keeps q
      have hkeeps' := h'.keeps q
      tauto
    intro q
    simp only [Grew, hpath, exists_or]
    exact or_or_or_comm
  refine ⟨fun q hq => h'.keeps q (h.keeps q hq), fun q c hq => ?_, fun q m hq hg => ?_, fun q m hq hg => ?_⟩
  · obtain ⟨c', hc'⟩ := h.files q c hq
    exact h'.files q c' hc'
  · by_cases hlate : Grew t' t'' q
    · exact h'.grew q m hq hlate
    · exact h.grew q m (h'.same q m hq hlate) (((hgrew q).1 hg).resolve_right hlate)
  · rw [hgrew, not_or] at hg
    exact h.same q m (h'.same q m hq hg.2) hg.1

theorem lookup_touch (t : Tree) (now : ℤ) (p q : Path) (h : t.view p = some none) :
    (t.touch now p).nodes.lookup q = if q = p then some (.dir now) else t.nodes.lookup q := by
  rw [touch, dif_pos h]
  split_ifs with hq
  · rw [hq]
    exact AList.lookup_insert _
  · exact AList.lookup_insert_ne hq

theorem stamped_put {base : Path} {name : Bytes} {n : Node} {now : ℤ} (hnone : t.view (base ++ [name]) = none)
    (h : t.Settable (base ++ [name]) n) (hn : ∀ m, n = .dir m → m = now) :
    Stamped now t ((t.set (base ++ [name]) n h).touch now base) := by
  have hview : ∀ q, ((t.set (base ++ [name]) n h).touch now base).view q = if q = base ++ [name] then some n.kind else t.view q := by
    intro q
    rw [view_touch, view_set]
  have hne : base ≠ base ++ [name] := by simp
  have hbase : (t.set (base ++ [name]) n h).view base = some none := by
    have hin := h.inside (by simp)
    rw [List.dropLast_concat] at hin
    rw [view_set, if_neg hne, hin]
  have hgrew : ∀ q, Grew t ((t.set (base ++ [name]) n h).touch now base) q ↔ q = base ++ [name] ∨ q = base := by
    intro q
    constructor
    · rintro (⟨hq, hq'⟩ | ⟨name', hq, hq'⟩)
      · rw [hview] at hq'
        split_ifs at hq' with he
        · exact Or.inl he
        · exact absurd hq hq'
      · rw [hview] at hq'
        split_ifs at hq' with he
        · exact Or.inr (List.append_inj_left' he rfl)
        · exact absurd hq hq'
    · rintro (rfl | rfl)
      · exact Or.inl ⟨hnone, by rw [hview, if_pos rfl]; simp⟩
      · exact Or.inr ⟨name, hnone, by rw [hview, if_pos rfl]; simp⟩
  have hlookup := (t.set (base ++ [name]) n h).lookup_touch now base
  refine ⟨fun q hq => ?_, fun q c hq => ?_, fun q m hq hg => ?_, fun q m hq hg => ?_⟩
  · rw [hview]
    split_ifs
    · simp
    · exact hq
  · refine ⟨c, ?_⟩
    rw [hview, if_neg ?_, hq]
    rintro rfl
    rw [hnone] at hq
    cases hq
  · rw [hlookup q hbase] at hq
    rcases (hgrew q).1 hg with rfl | rfl
    · rw [if_neg hne.symm] at hq
      exact hn m (Option.some.inj ((AList.lookup_insert _).symm.trans hq))
    · rw [if_pos rfl] at hq
      exact (Node.dir.inj (Option.some.inj hq)).symm
  · rw [hgrew, not_or] at hg
    rw [hlookup q hbase, if_neg hg.2] at hq
    exact (AList.lookup_insert_ne hg.1).symm.trans hq

theorem stamped_overwrite {content old : Bytes} {now : ℤ} (hold : t.view p = some (some old))
    (h : t.Settable p (.file content)) : Stamped now t (t.set p (.file content) h) := by
  have hview : ∀ q, (t.set p (.file content) h).view q = none ↔ t.view q = none := by
    intro q
    rw [view_set]
    split_ifs with hq
    · simp [hq, hold]
    · rfl
  have hgrew : ∀ q, ¬ Grew t (t.set p (.file content) h) q := by
    rintro q (⟨hq, hq'⟩ | ⟨name, hq, hq'⟩)
    · exact hq' ((hview q).2 hq)
    · exact hq' ((hview _).2 hq)
  refine ⟨fun q hq => mt (hview q).1 hq, fun q c hq => ?_, fun q m _ hg => absurd hg (hgrew q), fun q m hq _ => ?_⟩
  · rw [view_set]
    split_ifs
    · exact ⟨content, rfl⟩
    · exact ⟨c, hq⟩
  · have hqp : q ≠ p := by
      rintro rfl
      cases (AList.lookup_insert _).symm.trans hq
    exact (AList.lookup_insert_ne hqp).symm.trans hq

theorem stamped_mkdirFrom (t : Tree) (now : ℤ) (base : Path) (rest : List Bytes) : Stamped now t (mkdirFrom now t base rest).1 := by
  induction rest generalizing t base with
  | nil => exact Stamped.refl now t
  | cons name rest ih =>
    simp only [mkdirFrom]
    split
    · exact ih t _
    · exact Stamped.refl now t
    · rename_i hnone
      split_ifs with hset
      · exact (stamped_put hnone hset fun m hm => (Node.dir.inj hm).symm).trans (ih _ _)
      · exact Stamped.refl now t

theorem stamped_writeFile (t : Tree) (now : ℤ) (base : Path) (name content : Bytes) :
    Stamped now t (t.writeFile now (base ++ [name]) content).1 := by
  unfold writeFile
  split_ifs with hdir hset hnew
  · exact Stamped.refl now t
  · have hput : Stamped now t ((t.set (base ++ [name]) (.file content) hset).touch now base) :=
      stamped_put hnew hset fun m hm => nomatch hm
    simpa only [List.dropLast_concat] using hput
  · obtain ⟨kind, hkind⟩ := Option.ne_none_iff_exists'.1 hnew
    cases kind with
    | none => exact absurd hkind hdir
    | some old => exact stamped_overwrite hkind hset
  · exact Stamped.refl now t

variable (t)

/-- `os.ReadDir`: the names in a directory with what they name; `none` where there is no directory. -/
def readDir (p : Path) : Option (List (Bytes × Node)) :=
  if t.view p = some none then
    some (t.nodes.entries.filterMap fun e =>
      if e.1 ≠ [] ∧ e.1.dropLast = p then some (e.1.getLastD [], e.2) else none)
  else none

theorem mem_readDir {entries : List (Bytes × Node)} (h : t.readDir p = some entries) (name : Bytes)
    (n : Node) : (name, n) ∈ entries ↔ t.nodes.lookup (p ++ [name]) = some n := by
  unfold readDir at h
  split_ifs at h
  rw [← Option.some.inj h, List.mem_filterMap, ← Option.mem_def, AList.mem_lookup_iff]
  constructor
  · rintro ⟨⟨q, m⟩, hmem, he⟩
    split_ifs at he with hq
    obtain ⟨hne, rfl⟩ := hq
    simp only [Option.some.injEq, Prod.mk.injEq] at he
    obtain ⟨rfl, rfl⟩ := he
    rwa [List.getLastD_eq_getLast?, List.getLast?_eq_some_getLast hne, Option.getD_some,
      List.dropLast_append_getLast hne]
  · intro hmem
    exact ⟨⟨p ++ [name], n⟩, hmem, by simp⟩

/-- There is nothing at `p`, and not because a file stands in the way: `os.ErrNotExist`. -/
def missing (p : Path) : Bool := t.view p = none && p.inits.all fun q => t.view q = none || t.view q = some none

theorem view_eq_file {content : Bytes} :
    t.view p = some (some content) ↔ t.nodes.lookup p = some (.file content) := by
  rw [view, viewOf, Option.map_eq_some_iff]
  constructor
  · rintro ⟨n, hn, hk⟩
    cases n with
    | file c => rw [hn, Option.some.inj hk]
    | dir m => cases hk
  · intro h
    exact ⟨_, h, rfl⟩

/-- A path can be read as a directory, or can become one: no file is at it or above it. -/
def Free (p : Path) : Prop := ∀ q, q <+: p → ∀ c, t.view q ≠ some (some c)

theorem free_of_missing (h : t.missing p = true) : t.Free p := by
  intro q hq c hc
  simp only [missing, Bool.and_eq_true, List.all_eq_true, List.mem_inits] at h
  have hnone := h.2 q hq
  rw [hc] at hnone
  exact absurd hnone (by simp)

theorem missing_of_free (h : t.Free p) (hnone : t.view p = none) : t.missing p = true := by
  simp only [missing, hnone, decide_true, Bool.true_and, List.all_eq_true, List.mem_inits]
  intro q hq
  cases hv : t.view q with
  | none => rfl
  | some k =>
    cases k with
    | none => rfl
    | some c => exact absurd hv (h q hq c)

theorem pairwise_readDir {entries : List (Bytes × Node)} (h : t.readDir p = some entries) :
    entries.Pairwise fun e e' => e.1 ≠ e'.1 := by
  unfold readDir at h
  split_ifs at h
  rw [← Option.some.inj h]
  refine List.Pairwise.filterMap _ (fun e e' hne => ?_) (List.nodupKeys_iff_pairwise.1 t.nodes.nodupKeys)
  intro b hb b' hb' heq
  split_ifs at hb hb' with h1 h2
  obtain ⟨hnil, hp⟩ := h1
  obtain ⟨hnil', hp'⟩ := h2
  rw [Option.some.injEq] at hb hb'
  rw [← hb, ← hb'] at heq
  simp only [List.getLastD_eq_getLast?, List.getLast?_eq_some_getLast hnil, List.getLast?_eq_some_getLast hnil',
    Option.getD_some] at heq
  apply hne
  calc e.1 = e.1.dropLast ++ [e.1.getLast hnil] := (List.dropLast_append_getLast hnil).symm
    _ = e'.1.dropLast ++ [e'.1.getLast hnil'] := by rw [heq, hp, hp']
    _ = e'.1 := List.dropLast_append_getLast hnil'

theorem viewOf_singleton_ne (n : Node) (hp : p ≠ []) : viewOf (AList.singleton [] n) p = none := by
  have hl : AList.lookup p (AList.insert [] n ∅ : Nodes) = none := by
    rw [AList.lookup_insert_ne hp, AList.lookup_empty]
  exact congrArg (Option.map Node.kind) hl

/-- The tree with nothing in it. -/
def empty (now : ℤ) : Tree where
  nodes := AList.singleton [] (.dir now)
  top := rfl
  parent := by
    intro p name h
    exact absurd (viewOf_singleton_ne _ (by simp)) h
  valid := by
    intro p h
    by_cases hp : p = []
    · simp [hp]
    · exact absurd (viewOf_singleton_ne _ hp) h

theorem view_empty (q : Path) (c : Bytes) : (empty now).view q ≠ some (some c) := by
  by_cases hq : q = []
  · rw [hq, view_top]
    simp
  · rw [view, empty, viewOf_singleton_ne _ hq]
    simp

end Tree

/-- One step of `filepath.Clean` on a rooted path. -/
def cleanStep (p : Path) (name : Bytes) : Path :=
  if name = [] ∨ name = [46] then p else if name = [46, 46] then p.dropLast else p ++ [name]

/-- `filepath.Join` of a clean rooted path and one more element. -/
def join (base : Path) (elem : Bytes) : Path := (elem.splitOn 47).foldl cleanStep base

theorem join_of_no_slash (base : Path) {elem : Bytes} (h : 47 ∉ elem) : join base elem = cleanStep base elem := by
  have hs : elem.splitOn 47 = [elem] := by
    apply List.splitOnP_eq_singleton
    intro b hb
    have : b ≠ 47 := fun he => h (he ▸ hb)
    simpa using this
  rw [join, hs]
  rfl

theorem join_of_valid (base : Path) {name : Bytes} (h : ValidName name) : join base name = base ++ [name] := by
  obtain ⟨h1, h2, h3, h4, -⟩ := h
  rw [join_of_no_slash base h4, cleanStep, if_neg (by simp [h1, h2]), if_neg h3]

end Lib.FileTree
