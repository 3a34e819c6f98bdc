import CaptivoAccess.Lib.Run
import CaptivoAccess.Sanity.RecStore
import CaptivoAccess.Spec.RrwebRecord

/-! Whose posts a web recording is made of. Nothing compares the user and the site of a
post with those the recording was begun for: a post that carries the key of another
recording writes over its chunks and adds to it. As long as nobody uses a key that
somebody else has begun, a recording is only changed by the user and the site it was
begun for. -/

namespace Captivo.Rrweb

open Lib.Utf8 Lib.FileTree Lib.Run Captivo.RecStore

/-- The file of that name among the chunks of a recording. -/
def chunkAt (dep : Deployment) (w : World) (connectorID key name : Bytes) : Option Bytes :=
  match dir (dep.root connectorID) ⟨dep.tenantID, key, rrweb⟩ with
  | .error _ => none
  | .ok d => ((w.store connectorID).view (d ++ [name])).join

/-- What the index has under a key. -/
def rowsOf (w : World) (key : Bytes) : List Row := w.rows.filter fun r => r.recordingKey = key

/-- The user and the site a recording was first written for. -/
def owner (w : World) (key : Bytes) : Option (Bytes × Bytes) :=
  (w.writes.find? fun x => x.recordingKey = key).map fun x => (x.userID, x.siteID)

def Post.sender (p : Post) : Bytes × Bytes := (p.userID, p.siteID)

/-- The batch of a post that is taken. -/
def Post.batch (dep : Deployment) (p : Post) : Option Batch :=
  if p.recordSessions then
    (p.body.bind fun body => if maxRecordingBatchBytes < body.length then none else dep.unmarshal body).filter (·.recordingKey ≠ [])
  else none

/-- A post with a key that is in use comes from the user and the site it is in use for. -/
def OwnKey (dep : Deployment) (w : World) (p : Post) : Prop :=
  ∀ batch ∈ p.batch dep, ∀ own ∈ owner w batch.recordingKey, p.sender = own

instance (dep : Deployment) (w : World) (p : Post) : Decidable (OwnKey dep w p) :=
  inferInstanceAs (Decidable (∀ batch ∈ p.batch dep, ∀ own ∈ owner w batch.recordingKey, p.sender = own))

/-! One post. -/

theorem names_injective {s s' : Bytes} (h : names s = names s') : s = s' := by
  unfold names at h
  split_ifs at h with h1 h2 h2
  · rw [h1, h2]
  · exact (List.cons.inj h).1

theorem dir_injective {root d : Path} {tenantID key key' : Bytes} (h : dir root ⟨tenantID, key, rrweb⟩ = .ok d)
    (h' : dir root ⟨tenantID, key', rrweb⟩ = .ok d) : key = key' := by
  obtain ⟨-, -, -, hd⟩ := dir_ok h
  obtain ⟨-, -, -, hd'⟩ := dir_ok h'
  have hnames := List.append_cancel_left (hd.symm.trans hd')
  exact names_injective (List.append_cancel_left (List.append_cancel_right hnames))

theorem append_frame {sealChunk : Bytes → Option Bytes} {now seq : ℤ} {root d : Path} {t : Tree} {tenantID key key' plain : Bytes}
    (hne : key' ≠ key) (hd : dir root ⟨tenantID, key, rrweb⟩ = .ok d) (name : Bytes) :
    ((append sealChunk now root t ⟨tenantID, key', rrweb⟩ seq plain).1.view (d ++ [name])).join = (t.view (d ++ [name])).join := by
  have hother : ∀ d', dir root ⟨tenantID, key', rrweb⟩ = .ok d' → d ++ [name] ≠ d' ++ [decimal seq ++ ascii ".bin"] := by
    intro d' hd' he
    obtain ⟨rfl, -⟩ := List.append_inj' he rfl
    exact hne (dir_injective hd' hd)
  ext content
  rw [Option.join_eq_some_iff, Option.join_eq_some_iff]
  constructor
  · intro h
    rcases file_of_append h with hold | ⟨d', hd', he⟩
    · exact hold
    · exact absurd he (hother d' hd')
  · intro h
    by_contra hchanged
    cases hd' : dir root ⟨tenantID, key', rrweb⟩ with
    | error e =>
      simp only [append, hd'] at hchanged
      exact hchanged h
    | ok d' =>
      rcases append_changes hd' (fun he => hchanged (he.trans h)) with ⟨hnone, -⟩ | he
      · rw [hnone] at h
        cases h
      · exact hother d' hd' he

theorem rowsOf_ingest {key key' : Bytes} (hne : key' ≠ key) (userId siteId host : Bytes) (bytes : ℕ) (rows : List Row) :
    (ingest userId siteId host key' bytes rows).filter (fun r => r.recordingKey = key) = rows.filter fun r => r.recordingKey = key := by
  unfold ingest
  split_ifs with hany
  · clear hany
    induction rows with
    | nil => rfl
    | cons r rows ih =>
      rw [List.map_cons, List.filter_cons, List.filter_cons, ih]
      by_cases hr : r.recordingKey = key'
      · simp [hr, hne]
      · rw [if_neg hr]
  · simp [List.filter_append, hne]

/-- What a batch that is taken leaves. -/
def taken (dep : Deployment) (w : World) (p : Post) (batch : Batch) : World :=
  let w := if p.reaches then writeRecChunk dep w p batch else w
  if p.indexed then { w with rows := ingest p.userID p.siteID p.host batch.recordingKey batch.events.length w.rows } else w

theorem batch_eq_some_iff {dep : Deployment} {p : Post} {batch : Batch} :
    p.batch dep = some batch ↔ p.recordSessions = true ∧ ∃ body, p.body = some body ∧ body.length ≤ maxRecordingBatchBytes ∧
      dep.unmarshal body = some batch ∧ batch.recordingKey ≠ [] := by
  unfold Post.batch
  by_cases hrec : p.recordSessions = true
  · rw [if_pos hrec, Option.filter_eq_some_iff, Option.bind_eq_some_iff]
    simp only [hrec, true_and, decide_eq_true_eq]
    constructor
    · intro ⟨⟨body, hbody, hread⟩, hkey⟩
      split_ifs at hread with hlong
      exact ⟨body, hbody, Nat.not_lt.1 hlong, hread, hkey⟩
    · intro ⟨body, hbody, hshort, hread, hkey⟩
      exact ⟨⟨body, hbody, (if_neg (Nat.not_lt.2 hshort)).trans hread⟩, hkey⟩
  · simp [hrec]

theorem store_taken {dep : Deployment} {w : World} {p : Post} {batch : Batch} (h : p.reaches = true) :
    (taken dep w p batch).store p.connectorID =
      (append (dep.sealWith p.connectorID p.nonce) p.now (dep.root p.connectorID) (w.store p.connectorID)
        ⟨dep.tenantID, batch.recordingKey, rrweb⟩ batch.seq (batch.events ++ [10])).1 := by
  have hstore : (taken dep w p batch).store = (writeRecChunk dep w p batch).store := by
    rw [taken, if_pos h]
    split_ifs
    · rfl
    · rfl
  rw [hstore]
  exact Function.update_self _ _ _

theorem step_of_batch (dep : Deployment) (w : World) {p : Post} {batch : Batch} (h : p.batch dep = some batch) :
    step dep w p = taken dep w p batch := by
  obtain ⟨hrec, body, hbody, hshort, hread, hkey⟩ := batch_eq_some_iff.1 h
  simp [step, serveRecording, sendRrwebToConnector, taken, hrec, hbody, Nat.not_lt.2 hshort, hread, hkey]

theorem step_of_no_batch (dep : Deployment) (w : World) {p : Post} (h : p.batch dep = none) : step dep w p = w := by
  rw [step, serveRecording]
  split_ifs with hrec
  · rfl
  · cases hbody : p.body with
    | none => rfl
    | some body =>
      simp only
      split_ifs with hlong
      · rfl
      · rw [sendRrwebToConnector]
        cases hread : dep.unmarshal body with
        | none => rfl
        | some batch =>
          refine if_pos (Decidable.byContradiction fun hkey => ?_)
          have hbatch := batch_eq_some_iff.2 ⟨by simpa using hrec, body, hbody, Nat.not_lt.1 hlong, hread, hkey⟩
          rw [h] at hbatch
          cases hbatch

theorem step_cases (dep : Deployment) (w : World) (p : Post) :
    step dep w p = w ∨ ∃ batch ∈ p.batch dep, step dep w p = taken dep w p batch := by
  cases hbatch : p.batch dep with
  | none => exact .inl (step_of_no_batch dep w hbatch)
  | some batch => exact .inr ⟨batch, rfl, step_of_batch dep w hbatch⟩

section Step

variable {dep : Deployment} {w : World} {p : Post} {key : Bytes}

theorem chunkAt_write {batch : Batch} (hne : batch.recordingKey ≠ key) (c name : Bytes) :
    chunkAt dep (writeRecChunk dep w p batch) c key name = chunkAt dep w c key name := by
  unfold chunkAt
  cases hd : dir (dep.root c) ⟨dep.tenantID, key, rrweb⟩ with
  | error e => rfl
  | ok d =>
    simp only [writeRecChunk, Function.update_apply]
    split_ifs with hc
    · subst hc
      exact append_frame hne hd name
    · rfl

theorem taken_frame {batch : Batch} (hne : batch.recordingKey ≠ key) :
    (∀ c name, chunkAt dep (taken dep w p batch) c key name = chunkAt dep w c key name) ∧
      rowsOf (taken dep w p batch) key = rowsOf w key := by
  unfold taken
  split_ifs
  · exact ⟨chunkAt_write hne, rowsOf_ingest hne _ _ _ _ _⟩
  · exact ⟨chunkAt_write hne, rfl⟩
  · exact ⟨fun _ _ => rfl, rowsOf_ingest hne _ _ _ _ _⟩
  · exact ⟨fun _ _ => rfl, rfl⟩

variable {own : Bytes × Bytes}

theorem owner_taken {batch : Batch} (h : owner w key = some own) : owner (taken dep w p batch) key = some own := by
  have hwritten : owner (writeRecChunk dep w p batch) key = some own := by
    obtain ⟨x, hx, rfl⟩ := Option.map_eq_some_iff.1 h
    unfold owner writeRecChunk
    simp only
    split
    · rw [List.find?_append, hx]
      rfl
    · rw [hx]
      rfl
  unfold taken owner at *
  simp only
  split_ifs <;> first | exact hwritten | exact h

theorem owner_step (h : owner w key = some own) : owner (step dep w p) key = some own := by
  rcases step_cases dep w p with he | ⟨batch, -, he⟩
  · rw [he]
    exact h
  · rw [he]
    exact owner_taken h

/-- A post of somebody else leaves the recording as it is, where every key in use is used by its owner. -/
theorem step_frame (h : owner w key = some own) (hown : OwnKey dep w p) (hother : p.sender ≠ own) :
    (∀ c name, chunkAt dep (step dep w p) c key name = chunkAt dep w c key name) ∧ rowsOf (step dep w p) key = rowsOf w key := by
  rcases step_cases dep w p with he | ⟨batch, hbatch, he⟩
  · rw [he]
    exact ⟨fun _ _ => rfl, rfl⟩
  · have hne : batch.recordingKey ≠ key := by
      intro hkey
      rw [← hkey] at h
      exact hother (hown batch hbatch own h)
    rw [he]
    exact taken_frame hne

end Step

/-! Any sequence of posts. -/

/-- Where no post carries a key that was first written for another user or site, the chunks and the index of a recording stay as they
are through all posts of other users and for other sites. -/
theorem recording_kept_for_owner (dep : Deployment) (w₀ : World) (pre rest : List Post)
    (hown : Meets (step dep) (OwnKey dep) w₀ (pre ++ rest)) {key : Bytes} {own : Bytes × Bytes}
    (hkey : owner (pre.foldl (step dep) w₀) key = some own) (hrest : ∀ p ∈ rest, p.sender ≠ own) :
    (∀ c name, chunkAt dep ((pre ++ rest).foldl (step dep) w₀) c key name = chunkAt dep (pre.foldl (step dep) w₀) c key name) ∧
      rowsOf ((pre ++ rest).foldl (step dep) w₀) key = rowsOf (pre.foldl (step dep) w₀) key := by
  have hmeets := (meets_append.1 hown).2
  rw [List.foldl_append]
  clear hown
  generalize pre.foldl (step dep) w₀ = w at hkey hmeets ⊢
  induction rest generalizing w with
  | nil => exact ⟨fun _ _ => rfl, rfl⟩
  | cons p rest ih =>
    have hhead := step_frame hkey hmeets.1 (hrest p List.mem_cons_self)
    have htail := ih (fun q hq => hrest q (List.mem_cons_of_mem _ hq)) _ (owner_step hkey) hmeets.2
    exact ⟨fun c name => (htail.1 c name).trans (hhead.1 c name), htail.2.trans hhead.2⟩

/-- A store without encryption, and bodies that are keys and events alike. -/
def plainDeployment : Deployment := ⟨ascii "t", fun _ => [], fun _ _ plain => some plain, fun body => some ⟨body.take 1, 0, body⟩⟩

def noRecordings : World := ⟨fun _ => Tree.empty 0, [], []⟩

def postOf (userID body : String) : Post :=
  ⟨ascii userID, ascii "s", ascii "h", ascii "c", true, some (ascii body), true, 0, [], true⟩

/-- Two users with keys of their own. -/
theorem recording_kept_for_owner_two :
    Meets (step plainDeployment) (OwnKey plainDeployment) noRecordings ([postOf "u" "k1"] ++ [postOf "v" "l1"]) ∧
      ((∀ c name, chunkAt plainDeployment (([postOf "u" "k1"] ++ [postOf "v" "l1"]).foldl (step plainDeployment) noRecordings) c
          (ascii "k") name = chunkAt plainDeployment ([postOf "u" "k1"].foldl (step plainDeployment) noRecordings) c (ascii "k") name) ∧
        rowsOf (([postOf "u" "k1"] ++ [postOf "v" "l1"]).foldl (step plainDeployment) noRecordings) (ascii "k") =
          rowsOf ([postOf "u" "k1"].foldl (step plainDeployment) noRecordings) (ascii "k")) := by
  have hown : Meets (step plainDeployment) (OwnKey plainDeployment) noRecordings ([postOf "u" "k1"] ++ [postOf "v" "l1"]) := by
    decide +kernel
  exact ⟨hown, recording_kept_for_owner plainDeployment noRecordings [postOf "u" "k1"] [postOf "v" "l1"] hown
    (show owner _ (ascii "k") = some (ascii "u", ascii "s") by decide +kernel) (by decide)⟩

/-- A post of another user under the same key writes over the chunk and adds to the index. -/
theorem foreign_post_replaces_chunk :
    owner ([postOf "u" "k1"].foldl (step plainDeployment) noRecordings) (ascii "k") = some (ascii "u", ascii "s") ∧
    (postOf "v" "k2").sender ≠ (ascii "u", ascii "s") ∧
    chunkAt plainDeployment ([postOf "u" "k1"].foldl (step plainDeployment) noRecordings) (ascii "c") (ascii "k") (ascii "0.bin") =
      some (ascii "k1\n") ∧
    chunkAt plainDeployment ([postOf "u" "k1", postOf "v" "k2"].foldl (step plainDeployment) noRecordings) (ascii "c") (ascii "k")
      (ascii "0.bin") = some (ascii "k2\n") := by
  decide +kernel

end Captivo.Rrweb
