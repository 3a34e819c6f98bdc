import CaptivoAccess.Proofs.RrwebOwner
import CaptivoAccess.Spec.RrwebFrame

/-! Which batches of a web recording are stored, and what the index counts. A batch may have
8 MiB, its request must go into a frame of 1 MiB, and the store takes only some names; the
index is told of every batch that is taken. Where the request fits and the names are
accepted, the store has every batch that the index counts. -/

namespace Captivo.Rrweb

open Lib.Utf8 Lib.FileTree Lib.Run Captivo.RecStore

/-! One batch. -/

def chunkName (batch : Batch) : Bytes := decimal batch.seq ++ ascii ".bin"

/-- The connector has the whole batch, under its number. -/
def StoredIn (dep : Deployment) (w : World) (p : Post) (batch : Batch) : Prop :=
  ∃ sealed, dep.sealWith p.connectorID p.nonce (batch.events ++ [10]) = some sealed ∧
    chunkAt dep w p.connectorID batch.recordingKey (chunkName batch) = some sealed

/-- Where the names are accepted, the write to the disk succeeds. -/
def DiskWrites (dep : Deployment) (w : World) (p : Post) (batch : Batch) : Prop :=
  ∀ d, dir (dep.root p.connectorID) ⟨dep.tenantID, batch.recordingKey, rrweb⟩ = .ok d →
    (append (dep.sealWith p.connectorID p.nonce) p.now (dep.root p.connectorID) (w.store p.connectorID)
      ⟨dep.tenantID, batch.recordingKey, rrweb⟩ batch.seq (batch.events ++ [10])).2.isOk = true

/-- The request fits in a frame, and the store accepts the names. -/
def Carried (dep : Deployment) (p : Post) (batch : Batch) : Prop :=
  fits dep batch = true ∧ (dir (dep.root p.connectorID) ⟨dep.tenantID, batch.recordingKey, rrweb⟩).isOk = true

/-- A post to a connector that is online and whose disk works, with a batch that is carried if it is taken. -/
def Delivers (dep : Deployment) (w : World) (p : Post) : Prop :=
  ∀ batch, p.batch dep = some batch → Online dep p batch ∧ DiskWrites dep w p batch ∧ Carried dep p batch

variable {dep : Deployment}

theorem stored_taken {w : World} {p : Post} {batch : Batch} (honline : Online dep p batch)
    (hdisk : DiskWrites dep w p batch) (hcarried : Carried dep p batch) : StoredIn dep (taken dep w p batch) p batch := by
  obtain ⟨d, hd⟩ : ∃ d, dir (dep.root p.connectorID) ⟨dep.tenantID, batch.recordingKey, rrweb⟩ = .ok d := by
    have hok := hcarried.2
    cases hd : dir (dep.root p.connectorID) ⟨dep.tenantID, batch.recordingKey, rrweb⟩ with
    | ok d => exact ⟨d, rfl⟩
    | error e =>
      rw [hd] at hok
      cases hok
  obtain ⟨sealed, hsealed, hview⟩ := append_stored hd (hdisk d hd)
  refine ⟨sealed, hsealed, ?_⟩
  rw [chunkAt, hd]
  simp only [store_taken (honline.trans hcarried.1), chunkName, hview, Option.join_some]

/-! The index. -/

/-- Every row counts some of the batches, each of its key. -/
def Counts (batches : List Batch) (rows : List Row) : Prop :=
  ∀ r ∈ rows, ∃ l : List Batch, l.Sublist batches ∧ (∀ b ∈ l, b.recordingKey = r.recordingKey) ∧ r.eventCount = l.length ∧
    r.bytes = (l.map (·.events.length)).sum

theorem Counts.mono {batches more : List Batch} {rows : List Row} (h : Counts batches rows) : Counts (batches ++ more) rows := by
  intro r hr
  obtain ⟨l, hl, hrest⟩ := h r hr
  exact ⟨l, hl.trans (List.sublist_append_left _ _), hrest⟩

variable {batches : List Batch}

theorem Counts.ingest {rows : List Row} (h : Counts batches rows) (userId siteId host : Bytes) (batch : Batch) :
    Counts (batches ++ [batch]) (ingest userId siteId host batch.recordingKey batch.events.length rows) := by
  unfold Rrweb.ingest
  split_ifs
  · refine List.forall_mem_map.2 fun r hr => ?_
    obtain ⟨l, hl, hkey, hcount, hbytes⟩ := h r hr
    split_ifs with hr
    · refine ⟨l ++ [batch], hl.append (List.Sublist.refl _), ?_, ?_, ?_⟩
      · exact List.forall_mem_append.2 ⟨hkey, List.forall_mem_singleton.2 hr.symm⟩
      · simp [hcount]
      · simp [hbytes]
    · exact ⟨l, hl.trans (List.sublist_append_left _ _), hkey, hcount, hbytes⟩
  · refine List.forall_mem_append.2 ⟨h.mono, List.forall_mem_singleton.2 ⟨[batch], List.sublist_append_right _ _, ?_, rfl, ?_⟩⟩
    · exact List.forall_mem_singleton.2 rfl
    · simp

theorem rows_taken (dep : Deployment) (w : World) (p : Post) (batch : Batch) :
    (taken dep w p batch).rows = if p.indexed then
      ingest p.userID p.siteID p.host batch.recordingKey batch.events.length w.rows else w.rows := by
  have hrows : (if p.reaches then writeRecChunk dep w p batch else w).rows = w.rows := by
    split_ifs
    · rfl
    · rfl
  by_cases hindexed : p.indexed = true
  · rw [taken, if_pos hindexed, if_pos hindexed]
    exact congrArg (ingest _ _ _ _ _) hrows
  · rw [taken, if_neg hindexed, if_neg hindexed]
    exact hrows

theorem counts_step {w : World} (h : Counts batches w.rows) (p : Post) :
    Counts (batches ++ (p.batch dep).toList) (step dep w p).rows := by
  rcases step_cases dep w p with hstep | ⟨batch, hbatch, hstep⟩
  · rw [hstep]
    exact h.mono
  · rw [hstep, rows_taken, Option.mem_def.1 hbatch]
    split_ifs
    · exact h.ingest _ _ _ batch
    · exact h.mono

theorem counts_run {w : World} (h : Counts batches w.rows) (posts : List Post) :
    Counts (batches ++ posts.filterMap (Post.batch dep)) (posts.foldl (step dep) w).rows := by
  induction posts generalizing w batches with
  | nil => simpa using h
  | cons p posts ih =>
    have hstep : Counts (batches ++ (p.batch dep).toList) (step dep w p).rows := counts_step h p
    have hrun := ih hstep
    have hcons : (p :: posts).filterMap (Post.batch dep) = (p.batch dep).toList ++ posts.filterMap (Post.batch dep) := by
      rw [List.filterMap_cons]
      cases p.batch dep with
      | none => rfl
      | some batch => rfl
    rwa [hcons, ← List.append_assoc]

/-- In a run of posts to connectors that are online and whose disks work, whose requests fit in a frame and whose names the stores
accept: each batch that is taken is stored in full, and the index counts no other batches. -/
theorem batches_stored_and_counted (dep : Deployment) (w : World) (hrows : w.rows = []) (posts : List Post)
    (h : Meets (step dep) (Delivers dep) w posts) :
    (∀ pre p rest batch, posts = pre ++ p :: rest → p.batch dep = some batch →
      StoredIn dep (step dep (pre.foldl (step dep) w) p) p batch) ∧
    Counts (posts.filterMap (Post.batch dep)) (posts.foldl (step dep) w).rows := by
  constructor
  · intro pre p rest batch hposts hbatch
    rw [hposts] at h
    obtain ⟨honline, hdisk, hcarried⟩ := (meets_append.1 h).2.1 batch hbatch
    rw [step_of_batch dep _ hbatch]
    exact stored_taken honline hdisk hcarried
  · have hnone : Counts [] w.rows := by simp [hrows, Counts]
    exact counts_run hnone posts

theorem delivers_of_batch {w : World} {p : Post} {batch : Batch} (hbatch : p.batch dep = some batch)
    (honline : Online dep p batch) (hdisk : DiskWrites dep w p batch) (hcarried : Carried dep p batch) : Delivers dep w p := by
  intro batch' h
  obtain rfl := Option.some.inj (hbatch.symm.trans h)
  exact ⟨honline, hdisk, hcarried⟩

/-- Two batches under one key. -/
theorem batches_stored_and_counted_two :
    (∀ pre p rest batch, [postOf "u" "k1", postOf "u" "k23"] = pre ++ p :: rest → p.batch plainDeployment = some batch →
      StoredIn plainDeployment (step plainDeployment (pre.foldl (step plainDeployment) noRecordings) p) p batch) ∧
    Counts ([postOf "u" "k1", postOf "u" "k23"].filterMap (Post.batch plainDeployment))
      ([postOf "u" "k1", postOf "u" "k23"].foldl (step plainDeployment) noRecordings).rows := by
  refine batches_stored_and_counted plainDeployment noRecordings rfl [postOf "u" "k1", postOf "u" "k23"] ⟨?_, ?_, trivial⟩
  · exact delivers_of_batch rfl (by decide +kernel : true = _) (fun _ _ => by decide +kernel)
      ⟨by decide +kernel, by decide +kernel⟩
  · exact delivers_of_batch rfl (by decide +kernel : true = _) (fun _ _ => by decide +kernel)
      ⟨by decide +kernel, by decide +kernel⟩

/-! Batches that are taken and not stored. -/

/-- A batch of 800000 bytes. -/
def largeBody : Bytes := List.replicate 800000 107

def largeBatch : Batch := ⟨largeBody.take 1, 0, largeBody⟩

/-- Its post, with the request that does not go out. -/
def largePost : Post := ⟨ascii "u", ascii "s", ascii "h", ascii "c", true, some largeBody, false, 0, [], true⟩

theorem largeBody_length : largeBody.length = 800000 := List.length_replicate

theorem largeBatch_taken : largePost.batch plainDeployment = some largeBatch := by
  refine batch_eq_some_iff.2 ⟨rfl, largeBody, rfl, ?_, rfl, ?_⟩
  · rw [largeBody_length]
    decide
  · intro h
    rcases List.take_eq_nil_iff.1 h with h | h
    · cases h
    · have hlen := congrArg List.length h
      rw [largeBody_length] at hlen
      cases hlen

theorem largeBatch_fits : fits plainDeployment largeBatch = false := by
  have hdata : (Lib.Base64.encode (largeBatch.events ++ [10])).length = 1066668 := by
    have hevents : largeBatch.events.length = 800000 := largeBody_length
    rw [Lib.Base64.encode_length, List.length_append, hevents, List.length_singleton]
  have hlong : Tunnel.maxFrame < (recWriteRequest plainDeployment largeBatch).length := by
    simp only [recWriteRequest, List.length_append, hdata, Tunnel.maxFrame]
    omega
  rw [fits, Tunnel.writeFrame, if_pos hlong]
  rfl

/-- A batch that is too large for a frame is not stored, though the connector is online and its disk works, and is counted. So is
one whose key the store does not take. -/
theorem batch_counted_not_stored :
    (largePost.batch plainDeployment = some largeBatch ∧ Online plainDeployment largePost largeBatch ∧
      DiskWrites plainDeployment noRecordings largePost largeBatch ∧
      (step plainDeployment noRecordings largePost).store = noRecordings.store ∧
      (step plainDeployment noRecordings largePost).rows = [⟨largeBatch.recordingKey, ascii "u", ascii "s", ascii "h", 1, 800000⟩]) ∧
    ((postOf "u" "/").batch plainDeployment = some ⟨ascii "/", 0, ascii "/"⟩ ∧
      Online plainDeployment (postOf "u" "/") ⟨ascii "/", 0, ascii "/"⟩ ∧
      (step plainDeployment noRecordings (postOf "u" "/")).writes = [] ∧
      (step plainDeployment noRecordings (postOf "u" "/")).rows = [⟨ascii "/", ascii "u", ascii "s", ascii "h", 1, 1⟩]) := by
  refine ⟨⟨largeBatch_taken, largeBatch_fits.symm, fun _ _ => by decide +kernel, ?_, ?_⟩, rfl, ?_, ?_, ?_⟩
  · rw [step_of_batch _ _ largeBatch_taken]
    rfl
  · rw [step_of_batch _ _ largeBatch_taken, rows_taken, ← largeBody_length]
    rfl
  · show true = fits plainDeployment ⟨ascii "/", 0, ascii "/"⟩
    decide +kernel
  · decide +kernel
  · decide +kernel

end Captivo.Rrweb
