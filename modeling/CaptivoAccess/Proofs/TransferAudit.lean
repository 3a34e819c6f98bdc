import CaptivoAccess.Proofs.Chunking

/-! What the audit trail says of file transfers. A stream is kept under an index that the
client chooses: where an index is opened again before it was ended, one of the two
transfers is lost. Of a long name only the beginning is kept. -/

namespace Captivo.Guac

open Lib.Utf8 Lib.Parse Lib.Run

/-! Transfers. -/

/-- What an instruction is to file transfers. -/
inductive FileOp where
  | opens (k : FtKey) (filename : Bytes)
  | ends (k : FtKey)
  | other
  deriving DecidableEq

def fileOp (dir : XferDir) : Instruction → FileOp
  | (op, args) =>
    if op = ascii "file" then
      match args with
      | idx :: _ :: name :: _ => .opens ⟨dir, idx⟩ name
      | _ => .other
    else if op = ascii "put" ∨ op = ascii "body" then
      match args with
      | _ :: idx :: _ :: name :: _ => .opens ⟨dir, idx⟩ name
      | _ => .other
    else if op = ascii "end" then
      match args with
      | idx :: _ => .ends ⟨dir, idx⟩
      | _ => .other
    else .other

/-- What an instruction adds, and to which stream. -/
def blobOf (dir : XferDir) : Instruction → Option (FtKey × Bytes)
  | (op, args) =>
    if op = ascii "blob" then
      match args with
      | idx :: data :: _ => some (⟨dir, idx⟩, data)
      | _ => none
    else none

/-- A file that was opened, and whether it was ended. -/
structure Transfer where
  key : FtKey
  filename : Bytes
  ended : Bool
  deriving DecidableEq

/-- One for each open, in order. -/
def transfers : List FileOp → List Transfer
  | [] => []
  | .opens k filename :: ops => ⟨k, filename, .ends k ∈ ops⟩ :: transfers ops
  | .ends _ :: ops => transfers ops
  | .other :: ops => transfers ops

/-- The indices that are open. -/
def track (ks : Finset FtKey) : FileOp → Finset FtKey
  | .opens k _ => insert k ks
  | .ends k => ks.erase k
  | .other => ks

/-- No index is opened that is open. -/
def Fresh : Finset FtKey → List FileOp → Prop := Meets track fun ks op => ∀ k filename, op = .opens k filename → k ∉ ks

/-- Never are more streams open than are kept. -/
def Bounded : Finset FtKey → List FileOp → Prop := Meets track fun ks op => (track ks op).card ≤ maxOpenStreams

instance (ks : Finset FtKey) (ops : List FileOp) : Decidable (Bounded ks ops) :=
  inferInstanceAs (Decidable (Meets track (fun ks op => (track ks op).card ≤ maxOpenStreams) ks ops))

/-- What an audit event shows of a transfer: its direction and how it ended, and the path of the file. -/
def shown (e : AuditEvent) : Bytes × ℕ × Bytes := (e.method, e.status, e.path)

def verb : XferDir → Bool → Bytes
  | .download, true => verbDownload
  | .upload, true => verbUpload
  | .download, false => verbDownloadPartial
  | .upload, false => verbUploadPartial

/-- What there is to show of a transfer. -/
def Transfer.shown (t : Transfer) : Bytes × ℕ × Bytes :=
  (verb t.key.dir t.ended, if t.ended then 200 else 499, 47 :: t.filename.dropWhile (· = 47))

/-! The calls of a session. -/

structure FtCall where
  now : ℤ
  dir : XferDir
  raw : Bytes

/-- The calls of both directions, in the order they take the lock; `none` if the process went down. -/
def ftCalls (o : FtSession) : Streams → List FtCall → Option (Streams × List AuditEvent)
  | s, [] => some (s, [])
  | s, c :: cs =>
    let seen := ftObserve o c.now c.dir s c.raw
    if seen.crashed then none else (ftCalls o seen.state cs).map fun se => (se.1, seen.events ++ se.2)

/-- The audit events of a session with those of its teardown. -/
def ftAudited (o : FtSession) (teardown : ℤ) (calls : List FtCall) : Option (Multiset AuditEvent) :=
  (ftCalls o .empty calls).map fun se => ↑se.2 + ftFlush o teardown se.1

/-- The instructions of the calls, with when and where they were seen. -/
def seenIn (calls : List FtCall) : List (ℤ × XferDir × Instruction) :=
  calls.flatMap fun c => (instruction.all c.raw).1.map fun i => (c.now, c.dir, i)

def fileOps (seen : List (ℤ × XferDir × Instruction)) : List FileOp := seen.map fun x => fileOp x.2.1 x.2.2

def actOn (o : FtSession) (s : Streams) (x : ℤ × XferDir × Instruction) : Streams × List AuditEvent := ftAct o x.1 x.2.1 s x.2.2

theorem ftObserve_eq (o : FtSession) (s : Streams) (c : FtCall) (cs : List FtCall) :
    ((outputs (actOn o) (ftObserve o c.now c.dir s c.raw).state (seenIn cs)).1,
        (ftObserve o c.now c.dir s c.raw).events ++
          (outputs (actOn o) (ftObserve o c.now c.dir s c.raw).state (seenIn cs)).2) =
      outputs (actOn o) s (seenIn (c :: cs)) := by
  obtain ⟨h1, h2, -⟩ := observeLoop_eq (ftAct o c.now c.dir) s (Nat.lt_succ_self c.raw.length)
  have hone : outputs (actOn o) s ((instruction.all c.raw).1.map fun i => (c.now, c.dir, i)) =
      outputs (ftAct o c.now c.dir) s (instruction.all c.raw).1 := outputs_map _ _ _ _
  have hseen : seenIn (c :: cs) = ((instruction.all c.raw).1.map fun i => (c.now, c.dir, i)) ++ seenIn cs := rfl
  rw [hseen, outputs_append, hone]
  rw [ftObserve, h1, h2]

theorem ftCalls_eq {o : FtSession} {s : Streams} {calls : List FtCall} {se : Streams × List AuditEvent}
    (h : ftCalls o s calls = some se) : outputs (actOn o) s (seenIn calls) = se := by
  induction calls generalizing s se with
  | nil => exact Option.some.inj h
  | cons c cs ih =>
    simp only [ftCalls] at h
    split_ifs at h
    obtain ⟨rest, hrest, rfl⟩ := Option.map_eq_some_iff.1 h
    rw [← ftObserve_eq, ih hrest]

theorem ftCalls_whole (o : FtSession) (s : Streams) (calls : List FtCall) (h : ∀ c ∈ calls, instruction.Whole c.raw) :
    ftCalls o s calls = some (outputs (actOn o) s (seenIn calls)) := by
  induction calls generalizing s with
  | nil => rfl
  | cons c cs ih =>
    have hcr : (ftObserve o c.now c.dir s c.raw).crashed = false :=
      observeMessage_whole (ftAct o c.now c.dir) s (h c List.mem_cons_self)
    rw [← ftObserve_eq, ftCalls, hcr, ih _ fun c' hc' => h c' (List.mem_cons_of_mem _ hc')]
    rfl

/-! The streams that are kept. -/

theorem map_kreplace {α γ : Type} {β : α → Type} [DecidableEq α] {k : α} {v v' : β k} {l : List (Sigma β)} {g : Sigma β → γ}
    (h : l.dlookup k = some v) (hg : g ⟨k, v'⟩ = g ⟨k, v⟩) : (l.kreplace k v').map g = l.map g := by
  induction l with
  | nil => rfl
  | cons e l ih =>
    obtain ⟨k₀, v₀⟩ := e
    by_cases hk : k = k₀
    · subst hk
      rw [List.dlookup_cons_eq, Option.some.injEq] at h
      subst h
      rw [List.kreplace, List.lookmap_cons_some _ _ (b := ⟨k, v'⟩) (by simp), List.map_cons, List.map_cons, hg]
    · rw [List.dlookup_cons_ne _ _ hk] at h
      rw [List.kreplace, List.lookmap_cons_none _ _ (by simp [hk]), List.map_cons, List.map_cons]
      exact congrArg _ (ih h)

namespace Streams

/-- The indices that are open with the names they were opened with. -/
def opened (s : Streams) : List (FtKey × Bytes) := s.live.entries.map fun e => (e.1, e.2.filename)

theorem keys_opened (s : Streams) : s.opened.map Prod.fst = s.live.keys := by
  rw [opened, List.map_map]
  rfl

theorem opened_addBytes (s : Streams) (k : FtKey) (n : ℤ) : (s.addBytes k n).opened = s.opened := by
  unfold addBytes
  split
  · rfl
  · rename_i st hst
    exact map_kreplace hst rfl

theorem opened_delete_of_notMem {s : Streams} {k : FtKey} (hk : k ∉ s.live) : (s.delete k).opened = s.opened := by
  have herase : s.live.entries.kerase k = s.live.entries := List.kerase_of_notMem_keys fun hmem => hk (AList.mem_keys.2 hmem)
  exact congrArg (List.map _) herase

theorem opened_delete {s : Streams} {k : FtKey} {st : FtStream} (h : s.get k = some st) :
    s.opened.Perm ((k, st.filename) :: (s.delete k).opened) := by
  have hk : k ∈ s.live.keys := AList.mem_keys.1 (AList.lookup_isSome.1 (Option.isSome_iff_exists.2 ⟨st, h⟩))
  obtain ⟨v, l₁, l₂, hl₁, hl, herase⟩ := List.exists_of_kerase hk
  have hv : v = st := by
    have hlook : s.live.entries.dlookup k = some st := h
    rw [hl, List.dlookup_append, List.dlookup_eq_none.2 hl₁, Option.none_or, List.dlookup_cons_eq] at hlook
    exact Option.some.inj hlook
  subst hv
  rw [opened, hl, opened]
  change List.Perm _ ((k, v.filename) :: List.map _ (List.kerase k s.live.entries))
  rw [herase, List.map_append, List.map_append, List.map_cons]
  exact List.perm_middle

theorem opened_openStream {s : Streams} (k : FtKey) (hlt : s.live.entries.length < maxOpenStreams) (filename mimetype : Bytes) :
    (s.openStream k.dir k.idx filename mimetype).opened = (k, filename) :: (s.delete k).opened := by
  rw [openStream, dif_neg (not_le.mpr hlt), opened]
  change List.map _ (s.live.insert k ⟨filename, mimetype, 0⟩).entries = _
  rw [AList.entries_insert]
  rfl

theorem openStream_full {s : Streams} (hfull : maxOpenStreams ≤ s.live.entries.length) (dir : XferDir)
    (idx filename mimetype : Bytes) : s.openStream dir idx filename mimetype = s := by
  rw [openStream, dif_pos hfull]

theorem length_opened (s : Streams) : s.opened.length = s.live.entries.length := List.length_map _

theorem notMem_delete (s : Streams) (k : FtKey) : ∀ p ∈ (s.delete k).opened, p.1 ≠ k := by
  intro p hp he
  have hmem : p.1 ∈ (s.delete k).live.keys := by
    rw [← keys_opened]
    exact List.mem_map_of_mem hp
  exact (AList.mem_erase.1 (AList.mem_keys.2 hmem)).1 he

end Streams

/-! One instruction. -/

section Act

variable (o : FtSession) (now : ℤ) {dir : XferDir} (s : Streams) {i : Instruction} {k : FtKey}

theorem ftAct_opens {filename : Bytes} (h : fileOp dir i = .opens k filename) :
    ∃ mimetype, ftAct o now dir s i = (s.openStream k.dir k.idx filename mimetype, []) := by
  obtain ⟨op, args⟩ := i
  simp only [fileOp] at h
  split_ifs at h with hfile hput hend
  · split at h
    · cases h
      rename_i idx mimetype rest
      refine ⟨mimetype, ?_⟩
      simp only [ftAct, if_pos hfile]
    · cases h
  · split at h
    · cases h
      rename_i fs idx mimetype rest
      refine ⟨mimetype, ?_⟩
      simp only [ftAct, if_neg hfile, if_pos hput]
    · cases h
  · split at h <;> cases h

theorem ftAct_ends (h : fileOp dir i = .ends k) :
    k.dir = dir ∧ ftAct o now dir s i =
      match s.get k with
      | some st => (s.delete k, [event o now dir st false])
      | none => (s, []) := by
  obtain ⟨op, args⟩ := i
  simp only [fileOp] at h
  split_ifs at h with hfile hput hend
  · split at h <;> cases h
  · split at h <;> cases h
  · split at h
    · cases h
      have hblob : op ≠ ascii "blob" := by
        rw [hend]
        decide
      exact ⟨rfl, (if_neg hfile).trans ((if_neg hput).trans ((if_neg hblob).trans (if_pos hend)))⟩
    · cases h

theorem ftAct_rest (h : fileOp dir i = .other) :
    (∃ k data, blobOf dir i = some (k, data) ∧ ftAct o now dir s i = (s.addBytes k (b64DecodedLen data), [])) ∨
      blobOf dir i = none ∧ ftAct o now dir s i = (s, []) := by
  obtain ⟨op, args⟩ := i
  by_cases hblob : op = ascii "blob"
  · subst hblob
    cases args with
    | nil => exact .inr ⟨rfl, rfl⟩
    | cons idx args =>
      cases args with
      | nil => exact .inr ⟨rfl, rfl⟩
      | cons data args => exact .inl ⟨⟨dir, idx⟩, data, rfl, rfl⟩
  · refine .inr ⟨if_neg hblob, ?_⟩
    simp only [fileOp] at h
    simp only [ftAct, if_neg hblob]
    split_ifs at h ⊢ with hfile hput hend
    · split
      · cases h
      · rfl
    · split
      · cases h
      · rfl
    · split
      · cases h
      · rfl
    · rfl

theorem ftAct_other (h : fileOp dir i = .other) :
    (ftAct o now dir s i).1.opened = s.opened ∧ (ftAct o now dir s i).2 = [] := by
  rcases ftAct_rest o now s h with ⟨k, data, -, hact⟩ | ⟨-, hact⟩
  · rw [hact]
    exact ⟨s.opened_addBytes k _, rfl⟩
  · rw [hact]
    exact ⟨rfl, rfl⟩

end Act

/-! What a session shows. -/

/-- What the event of a stream shows, where the name is cut. -/
def cutShown (k : FtKey) (filename : Bytes) (ended : Bool) : Bytes × ℕ × Bytes :=
  (verb k.dir ended, if ended then 200 else 499, transferPath filename)

theorem shown_event (o : FtSession) (now : ℤ) (k : FtKey) (st : FtStream) (aborted : Bool) :
    shown (event o now k.dir st aborted) = cutShown k st.filename (!aborted) := by
  obtain ⟨dir, idx⟩ := k
  cases dir <;> cases aborted <;> rfl

theorem shown_ftFlush (o : FtSession) (now : ℤ) (s : Streams) :
    (ftFlush o now s).map shown = ↑(s.opened.map fun p => cutShown p.1 p.2 false) := by
  rw [ftFlush, Multiset.map_coe, Streams.opened, List.map_map, List.map_map]
  congr 1
  exact List.map_congr_left fun e _ => shown_event o now e.1 e.2 true

/-- What is to come of the streams that are open: each is ended by the operations that follow or it is not. -/
def pending (s : Streams) (ops : List FileOp) : Multiset (Bytes × ℕ × Bytes) :=
  ↑(s.opened.map fun p => cutShown p.1 p.2 (.ends p.1 ∈ ops))

theorem pending_cons {s : Streams} {op : FileOp} {ops : List FileOp} (h : ∀ p ∈ s.opened, op ≠ .ends p.1) :
    pending s (op :: ops) = pending s ops := by
  unfold pending
  congr 1
  refine List.map_congr_left fun p hp => ?_
  have hne : FileOp.ends p.1 ≠ op := (h p hp).symm
  simp [List.mem_cons, hne]

theorem pending_delete {s : Streams} {k : FtKey} {st : FtStream} (h : s.get k = some st) (ops : List FileOp) :
    pending s ops = cutShown k st.filename (.ends k ∈ ops) ::ₘ pending (s.delete k) ops :=
  Multiset.coe_eq_coe.2 ((Streams.opened_delete h).map _)

/-- The streams that are kept are those that are open. -/
def Tracks (s : Streams) (ks : Finset FtKey) : Prop := (s.opened.map Prod.fst).toFinset = ks

theorem Tracks.length {s : Streams} {ks : Finset FtKey} (h : Tracks s ks) : s.live.entries.length = ks.card := by
  have hnodup : (s.opened.map Prod.fst).Nodup := by
    rw [Streams.keys_opened]
    exact s.live.keys_nodup
  rw [← h, List.toFinset_card_of_nodup hnodup, List.length_map, Streams.length_opened]

theorem Tracks.mem {s : Streams} {ks : Finset FtKey} (h : Tracks s ks) {k : FtKey} : k ∈ s.live ↔ k ∈ ks := by
  rw [← h, List.mem_toFinset, Streams.keys_opened, AList.mem_keys]

theorem Tracks.delete {s : Streams} {ks : Finset FtKey} (h : Tracks s ks) (k : FtKey) : Tracks (s.delete k) (ks.erase k) := by
  unfold Tracks at h ⊢
  rw [Streams.keys_opened] at h ⊢
  ext k'
  rw [List.mem_toFinset, ← AList.mem_keys, Finset.mem_erase, ← h, List.mem_toFinset, ← AList.mem_keys]
  exact AList.mem_erase

/-- How many operations open an index that is open. -/
def reopened : Finset FtKey → List FileOp → ℕ
  | _, [] => 0
  | ks, .opens k filename :: ops => (if k ∈ ks then 1 else 0) + reopened (track ks (.opens k filename)) ops
  | ks, .ends k :: ops => reopened (track ks (.ends k)) ops
  | ks, .other :: ops => reopened ks ops

theorem fresh_iff_reopened (ks : Finset FtKey) (ops : List FileOp) : Fresh ks ops ↔ reopened ks ops = 0 := by
  unfold Fresh
  induction ops generalizing ks with
  | nil => simp [Meets, reopened]
  | cons op ops ih =>
    cases op with
    | opens k filename => simp [Meets, reopened, ih]
    | ends k => simp [Meets, reopened, ih]
    | other => simp [Meets, reopened, ih, track]

/-- What the audit events of a run show, with those of the teardown. -/
def auditShown (o : FtSession) (teardown : ℤ) (s : Streams) (seen : List (ℤ × XferDir × Instruction)) :
    Multiset (Bytes × ℕ × Bytes) :=
  (↑(outputs (actOn o) s seen).2 + ftFlush o teardown (outputs (actOn o) s seen).1).map shown

theorem auditShown_cons (o : FtSession) (teardown : ℤ) (s : Streams) (x : ℤ × XferDir × Instruction)
    (seen : List (ℤ × XferDir × Instruction)) :
    auditShown o teardown s (x :: seen) = ↑((actOn o s x).2.map shown) + auditShown o teardown (actOn o s x).1 seen := by
  simp only [auditShown, outputs, ← Multiset.coe_add, Multiset.map_add, Multiset.map_coe, add_assoc]

/-- Where an index is opened, what is shown is right for the streams that are kept but for one if the index was open. -/
theorem pending_openStream {s : Streams} {ks : Finset FtKey} {k : FtKey} (h : Tracks s ks)
    (hcard : (insert k ks).card ≤ maxOpenStreams) (filename mimetype : Bytes) (ops : List FileOp) :
    Tracks (s.openStream k.dir k.idx filename mimetype) (insert k ks) ∧ ∃ lost : Multiset (Bytes × ℕ × Bytes),
      pending (s.openStream k.dir k.idx filename mimetype) ops + lost =
        cutShown k filename (.ends k ∈ ops) ::ₘ pending s ops ∧ lost.card = if k ∈ ks then 1 else 0 := by
  by_cases hfull : maxOpenStreams ≤ s.live.entries.length
  · -- the new stream is not kept, and there is room only if the index is open
    have hk : k ∈ ks := by
      by_contra hk
      rw [Finset.card_insert_of_notMem hk, ← h.length] at hcard
      omega
    rw [Streams.openStream_full hfull, Finset.insert_eq_of_mem hk, if_pos hk]
    exact ⟨h, {cutShown k filename (.ends k ∈ ops)}, by rw [← Multiset.singleton_add, add_comm], rfl⟩
  · have hopened := Streams.opened_openStream k (not_le.mp hfull) filename mimetype
    have hpending : pending (s.openStream k.dir k.idx filename mimetype) ops =
        cutShown k filename (.ends k ∈ ops) ::ₘ pending (s.delete k) ops := by
      rw [pending, hopened]
      rfl
    refine ⟨?_, ?_⟩
    · have hdelete := h.delete k
      unfold Tracks at hdelete ⊢
      rw [hopened, List.map_cons, List.toFinset_cons, hdelete]
      ext k'
      rw [Finset.mem_insert, Finset.mem_insert, Finset.mem_erase]
      tauto
    · rw [hpending]
      by_cases hk : k ∈ ks
      · obtain ⟨st, hst⟩ := Option.isSome_iff_exists.1 (AList.lookup_isSome.2 (h.mem.2 hk))
        refine ⟨{cutShown k st.filename (.ends k ∈ ops)}, ?_, by rw [if_pos hk]; rfl⟩
        rw [pending_delete hst, Multiset.cons_add, add_comm, Multiset.singleton_add]
      · refine ⟨0, ?_, by rw [if_neg hk]; rfl⟩
        have hsame : (s.delete k).opened = s.opened := Streams.opened_delete_of_notMem fun hmem => hk (h.mem.1 hmem)
        rw [add_zero, pending, hsame]
        rfl

/-- What there is to show of the transfers, where names are cut. -/
def cutTransfers (ops : List FileOp) : Multiset (Bytes × ℕ × Bytes) :=
  ↑((transfers ops).map fun t => cutShown t.key t.filename t.ended)

/-- One operation is accounted for: what it shows and what is to come after it is what was to come before, but for one that
is lost where an index is opened again. -/
structure Accounted (ks : Finset FtKey) (op : FileOp) (ops : List FileOp) (s s' : Streams) (events : List AuditEvent) : Prop where
  tracks : Tracks s' (track ks op)
  shows : ∃ lost : Multiset (Bytes × ℕ × Bytes),
    ↑(events.map shown) + pending s' ops + lost + cutTransfers ops = pending s (op :: ops) + cutTransfers (op :: ops) ∧
      lost.card + reopened (track ks op) ops = reopened ks (op :: ops)

section Accounts

variable {s : Streams} {ks : Finset FtKey} {k : FtKey} (h : Tracks s ks)
include h

theorem accounted_opens (hcard : (insert k ks).card ≤ maxOpenStreams) (filename mimetype : Bytes) (ops : List FileOp) :
    Accounted ks (.opens k filename) ops s (s.openStream k.dir k.idx filename mimetype) [] := by
  obtain ⟨htracks, lost, hlost, hone⟩ := pending_openStream h hcard filename mimetype ops
  refine ⟨htracks, lost, ?_, by rw [hone]; rfl⟩
  rw [List.map_nil, Multiset.coe_nil, zero_add, hlost, pending_cons fun _ _ => FileOp.noConfusion, Multiset.cons_add,
    ← Multiset.add_cons]
  rfl

theorem accounted_ends_none (hget : s.get k = none) (ops : List FileOp) : Accounted ks (.ends k) ops s s [] := by
  have hk : k ∉ s.live := AList.lookup_eq_none.1 hget
  have hother : ∀ p ∈ s.opened, FileOp.ends k ≠ .ends p.1 := by
    rintro p hp he
    rw [FileOp.ends.injEq] at he
    refine hk (AList.mem_keys.2 ?_)
    rw [he, ← Streams.keys_opened]
    exact List.mem_map_of_mem hp
  refine ⟨?_, 0, ?_, zero_add _⟩
  · rw [track, Finset.erase_eq_of_notMem fun hmem => hk (h.mem.2 hmem)]
    exact h
  · rw [List.map_nil, Multiset.coe_nil, zero_add, add_zero, pending_cons hother]
    rfl

theorem accounted_ends_some {st : FtStream} (hget : s.get k = some st) (o : FtSession) (now : ℤ) (ops : List FileOp) :
    Accounted ks (.ends k) ops s (s.delete k) [event o now k.dir st false] := by
  have hother : ∀ p ∈ (s.delete k).opened, FileOp.ends k ≠ .ends p.1 := by
    rintro p hp he
    rw [FileOp.ends.injEq] at he
    exact Streams.notMem_delete s k p hp he.symm
  refine ⟨h.delete k, 0, ?_, zero_add _⟩
  rw [pending_delete hget, pending_cons hother, List.map_singleton, shown_event, Multiset.coe_singleton, add_zero,
    Multiset.singleton_add, Bool.not_false, decide_eq_true List.mem_cons_self]
  rfl

theorem accounted_other {s' : Streams} (hopened : s'.opened = s.opened) (ops : List FileOp) : Accounted ks .other ops s s' [] := by
  refine ⟨?_, 0, ?_, zero_add _⟩
  · rw [Tracks, hopened]
    exact h
  · rw [List.map_nil, Multiset.coe_nil, zero_add, add_zero, pending_cons fun _ _ => FileOp.noConfusion, pending, hopened]
    rfl

theorem accounted_ftAct (o : FtSession) (now : ℤ) (dir : XferDir) (i : Instruction)
    (hcard : (track ks (fileOp dir i)).card ≤ maxOpenStreams) (ops : List FileOp) :
    Accounted ks (fileOp dir i) ops s (ftAct o now dir s i).1 (ftAct o now dir s i).2 := by
  cases hop : fileOp dir i with
  | opens k filename =>
    obtain ⟨mimetype, hact⟩ := ftAct_opens o now s hop
    rw [hop] at hcard
    rw [hact]
    exact accounted_opens h hcard filename mimetype ops
  | ends k =>
    obtain ⟨rfl, hact⟩ := ftAct_ends o now s hop
    rw [hact]
    cases hget : s.get k with
    | none => exact accounted_ends_none h hget ops
    | some st => exact accounted_ends_some h hget o now ops
  | other =>
    obtain ⟨hopened, hevents⟩ := ftAct_other o now s hop
    rw [hevents]
    exact accounted_other h hopened ops

end Accounts

/-- Of the streams that are open and those that are opened, each is shown once, but one is lost wherever an index is opened
again. -/
theorem auditShown_add_lost (o : FtSession) (teardown : ℤ) {s : Streams} {ks : Finset FtKey}
    (seen : List (ℤ × XferDir × Instruction)) (h : Tracks s ks) (hbound : Bounded ks (fileOps seen)) :
    ∃ lost : Multiset (Bytes × ℕ × Bytes), auditShown o teardown s seen + lost = pending s (fileOps seen) + cutTransfers (fileOps seen) ∧
      lost.card = reopened ks (fileOps seen) := by
  induction seen generalizing s ks with
  | nil =>
    refine ⟨0, ?_, rfl⟩
    simp only [auditShown, outputs, fileOps, List.map_nil, cutTransfers, transfers, Multiset.coe_nil, zero_add, add_zero]
    rw [shown_ftFlush]
    simp [pending]
  | cons x seen ih =>
    obtain ⟨hcard, hrest⟩ := hbound
    obtain ⟨htracks, lost, hlost, hcount⟩ := accounted_ftAct h o x.1 x.2.1 x.2.2 hcard (fileOps seen)
    obtain ⟨lost', hlost', hcount'⟩ := ih htracks hrest
    refine ⟨lost + lost', ?_, by rw [Multiset.card_add, hcount']; exact hcount⟩
    rw [auditShown_cons]
    calc _ = ↑((actOn o s x).2.map shown) + (auditShown o teardown (actOn o s x).1 seen + lost') + lost := by abel
      _ = ↑((actOn o s x).2.map shown) + pending (actOn o s x).1 (fileOps seen) + lost + cutTransfers (fileOps seen) := by
        rw [actOn, hlost']
        abel
      _ = _ := hlost

theorem cutShown_eq {t : Transfer} : cutShown t.key t.filename t.ended = t.shown ↔
    (t.filename.dropWhile (· = 47)).length ≤ maxFilenameLen := by
  simp [cutShown, Transfer.shown, transferPath, List.take_eq_self_iff]

/-- Of the calls of a session, each of whole instructions and with never more streams open than are kept, the audit events
are those of the files that were opened, one for each, with how it ended and its name, if and only if no index was opened
that was open and no name is longer than what is kept of one. -/
theorem transfers_audited_iff (o : FtSession) (teardown : ℤ) (calls : List FtCall) (hwhole : ∀ c ∈ calls, instruction.Whole c.raw)
    (hbound : Bounded ∅ (fileOps (seenIn calls))) :
    (ftAudited o teardown calls).map (Multiset.map shown) = some ↑((transfers (fileOps (seenIn calls))).map Transfer.shown) ↔
      Fresh ∅ (fileOps (seenIn calls)) ∧
        ∀ t ∈ transfers (fileOps (seenIn calls)), (t.filename.dropWhile (· = 47)).length ≤ maxFilenameLen := by
  have hempty : Tracks .empty ∅ := rfl
  have hrun : (ftAudited o teardown calls).map (Multiset.map shown) = some (auditShown o teardown .empty (seenIn calls)) := by
    rw [ftAudited, ftCalls_whole o _ calls hwhole]
    rfl
  obtain ⟨lost, hlost, hcount⟩ := auditShown_add_lost o teardown (seenIn calls) hempty hbound
  have hnone : pending .empty (fileOps (seenIn calls)) = 0 := rfl
  rw [hnone, zero_add, cutTransfers] at hlost
  rw [hrun, Option.some.injEq, fresh_iff_reopened, ← hcount, Multiset.card_eq_zero]
  constructor
  · intro heq
    have hzero : lost = 0 := by
      have hcard := congrArg Multiset.card hlost
      rw [heq, Multiset.card_add, Multiset.coe_card, Multiset.coe_card, List.length_map, List.length_map] at hcard
      exact Multiset.card_eq_zero.1 (by omega)
    refine ⟨hzero, fun t ht => ?_⟩
    rw [hzero, add_zero, heq] at hlost
    have hmem : t.shown ∈ (transfers (fileOps (seenIn calls))).map fun t => cutShown t.key t.filename t.ended := by
      rw [← Multiset.mem_coe, ← hlost, Multiset.mem_coe]
      exact List.mem_map_of_mem ht
    obtain ⟨t', -, he⟩ := List.mem_map.1 hmem
    have hpath : transferPath t'.filename = 47 :: t.filename.dropWhile (· = 47) := congrArg (fun shown => shown.2.2) he
    have hlen := congrArg List.length hpath
    rw [transferPath, List.length_cons, List.length_cons, List.length_take] at hlen
    omega
  · rintro ⟨hzero, hnames⟩
    rw [hzero, add_zero] at hlost
    rw [hlost]
    congr 1
    exact List.map_congr_left fun t ht => cutShown_eq.2 (hnames t ht)

/-- An upload that is ended and a download that is not. -/
def twoTransfers : List FtCall :=
  [⟨0, .upload, ascii "3.put,1.0,1.1,1.t,2./x;"⟩, ⟨1, .download, ascii "4.file,1.1,1.t,1.y;"⟩, ⟨2, .upload, ascii "3.end,1.1;"⟩]

theorem transfers_audited_iff_two :
    (ftAudited ⟨[], [], [], [], []⟩ 3 twoTransfers).map (Multiset.map shown) =
        some ↑((transfers (fileOps (seenIn twoTransfers))).map Transfer.shown) ↔
      Fresh ∅ (fileOps (seenIn twoTransfers)) ∧
        ∀ t ∈ transfers (fileOps (seenIn twoTransfers)), (t.filename.dropWhile (· = 47)).length ≤ maxFilenameLen :=
  transfers_audited_iff _ 3 twoTransfers (by decide +kernel) (by decide +kernel)

/-- The index of an upload is opened again for another file, and one of them is ended. -/
def reusedIndex : List FtCall :=
  [⟨0, .upload, ascii "3.put,1.0,1.1,1.t,2./x;"⟩, ⟨1, .upload, ascii "3.put,1.0,1.1,1.t,2./y;"⟩, ⟨2, .upload, ascii "3.end,1.1;"⟩]

/-- Two files were opened, and the audit trail has one of them. -/
theorem reused_index_loses_transfer :
    (∀ c ∈ reusedIndex, instruction.Whole c.raw) ∧ Bounded ∅ (fileOps (seenIn reusedIndex)) ∧
    (transfers (fileOps (seenIn reusedIndex))).length = 2 ∧
    (ftAudited ⟨[], [], [], [], []⟩ 3 reusedIndex).map (Multiset.map shown) = some {(verbUpload, 200, ascii "/y")} := by
  refine ⟨?_, ?_, ?_, ?_⟩ <;> decide +kernel

end Captivo.Guac
