import CaptivoAccess.Proofs.AdminRoundTrip
import CaptivoAccess.Sanity.AuditChain

/-! Whether a chain that nobody touched verifies, over every sequence of recorded
actions. -/

namespace Captivo.Audit

open Lib.JsonText Lib.JsValue Lib.HashChain

/-- The metadata of an action is plain; an action without any is. -/
def AdminInput.plainMetadata (input : AdminInput) : Bool := input.metadata.all fun m => plain (.obj m.fields)

/-- The text hashed when the action is recorded in `db`. -/
def writtenText (env : Env) (db : AdminDb) (input : AdminInput) : Units :=
  let head := db.head.getD genesis
  chainText head.lastHash (canonicalizeAdmin env.toISOString (input.chainable (head.lastSeq + 1)))

/-- The text hashed when its row is verified. -/
def readText (env : Env) (db : AdminDb) (input : AdminInput) : Units :=
  let row := adminRow env (db.head.getD genesis) input
  chainText row.prevHash (canonicalizeAdmin env.toISOString row.stored.event)

/-- SHA-256 does not confuse the two texts of the action's row. -/
def NoCollision (env : Env) (db : AdminDb) (input : AdminInput) : Prop :=
  env.sha256 (readText env db input) = env.sha256 (writtenText env db input) →
    readText env db input = writtenText env db input

/-- What an untouched table looks like. -/
structure Untouched (db : AdminDb) : Prop where
  linked : Linked AdminChainable.seq genesis (db.rows.map AdminAuditEvent.stored)
  head : db.head.getD genesis = headAfter AdminChainable.seq genesis (db.rows.map AdminAuditEvent.stored)
  started : db.head = none → db.rows = []

theorem untouched_empty : Untouched AdminDb.empty := ⟨trivial, rfl, fun _ => rfl⟩

variable {db : AdminDb}

theorem untouched_concat (h : Untouched db) {row : AdminAuditEvent}
    (hseq : row.seq = (db.head.getD genesis).lastSeq + 1) (hprev : row.prevHash = (db.head.getD genesis).lastHash) :
    Untouched ⟨some ⟨row.seq, row.hash⟩, db.rows ++ [row]⟩ := by
  refine ⟨?_, ?_, fun hn => by simp at hn⟩
  · simp only [List.map_append, List.map_cons, List.map_nil]
    rw [linked_append, ← h.head]
    exact ⟨h.linked, hseq, hprev, trivial⟩
  · simp only [List.map_append, List.map_cons, List.map_nil]
    rw [headAfter_append]
    rfl

variable (env : Env)

theorem untouched_recordAdminAction (h : Untouched db) (input : AdminInput) :
    Untouched (recordAdminAction env db input) := by
  unfold recordAdminAction
  split_ifs with ha
  · exact untouched_concat h rfl rfl
  · exact h

theorem untouched_run (h : Untouched db) (inputs : List AdminInput) :
    Untouched (inputs.foldl (recordAdminAction env) db) := by
  induction inputs generalizing db with
  | nil => exact h
  | cons i inputs ih => exact ih (untouched_recordAdminAction env h i)

theorem verifiedRows_eq (h : Untouched db) : verifiedRows db = db.rows := by
  have hsorted : db.rows.Pairwise fun r r' => r.seq ≤ r'.seq := by
    have hlt := linked_sorted AdminChainable.seq h.linked
    rw [List.pairwise_map] at hlt
    exact hlt.imp fun hr => Nat.le_of_lt hr
  have hall : db.rows.filter (fun r => db.head.all fun head => r.seq ≤ head.lastSeq) = db.rows := by
    rw [List.filter_eq_self]
    intro r hr
    cases hh : db.head with
    | none => rfl
    | some head =>
      have hle : r.seq ≤ _ := (linked_seq AdminChainable.seq h.linked (List.mem_map_of_mem hr)).2
      rw [← h.head, hh] at hle
      simpa using hle
  rw [verifiedRows, hall]
  exact hsorted.insertionSort_eq

theorem adminVerify_ok_iff (h : Untouched db) :
    (verifyAdminChain env.sha256 env.toISOString ((verifiedRows db).map AdminAuditEvent.stored) db.head).ok = true ↔
      ∀ r ∈ db.rows, Recomputes (computeAdminHash env.sha256 env.toISOString) r.stored := by
  rw [verifiedRows_eq h]
  cases hh : db.head with
  | none =>
    rw [h.started hh]
    simp [verifyAdminChain, verifyWith]
  | some head =>
    have hhead := h.head
    rw [hh, Option.getD_some] at hhead
    rw [hhead, verifyAdminChain, verifyWith_ok_iff _ _ h.linked, List.forall_mem_map]

/-- The two texts of an action's row are one text exactly when its metadata is plain. -/
theorem readText_eq_iff (db : AdminDb) (input : AdminInput) :
    readText env db input = writtenText env db input ↔ input.plainMetadata = true := by
  have hevent : (adminRow env (db.head.getD genesis) input).stored.event =
      { input.chainable ((db.head.getD genesis).lastSeq + 1) with
        metadata := (adminRow env (db.head.getD genesis) input).stored.event.metadata } := rfl
  simp only [readText, writtenText, chainText]
  rw [hevent]
  simp only [adminRow, List.append_cancel_left_eq, List.cons.injEq, true_and, canonicalizeAdmin_metadata]
  cases hm : input.metadata with
  | none => simp [AdminInput.plainMetadata, AdminInput.chainable, AdminAuditEvent.stored, hm]
  | some m =>
    simp only [AdminInput.plainMetadata, AdminInput.chainable, AdminAuditEvent.stored, hm, Option.map_some,
      Option.getD_some, Option.all_some]
    exact stableStringify_roundTrip_iff env.toISOString env.column m.distinct

theorem recomputes_adminRow (db : AdminDb) {input : AdminInput} (hplain : input.plainMetadata = true) :
    Recomputes (computeAdminHash env.sha256 env.toISOString) (adminRow env (db.head.getD genesis) input).stored :=
  congrArg env.sha256 ((readText_eq_iff env db input).2 hplain)

theorem recomputes_adminRow_iff (db : AdminDb) (input : AdminInput) (hc : NoCollision env db input) :
    Recomputes (computeAdminHash env.sha256 env.toISOString) (adminRow env (db.head.getD genesis) input).stored ↔
      input.plainMetadata = true := by
  refine ⟨fun h => ?_, recomputes_adminRow env db⟩
  rw [← readText_eq_iff env db input]
  exact hc h

theorem not_recomputes {env : Env} {input : AdminInput} (hc : NoCollision env db input)
    (ha : env.accepts input = true) (hplain : input.plainMetadata = false) :
    ¬ ∀ r ∈ (recordAdminAction env db input).rows,
      computeAdminHash env.sha256 env.toISOString r.stored.prevHash r.stored.event = r.hash := by
  intro h
  have hrow : adminRow env (db.head.getD genesis) input ∈ (recordAdminAction env db input).rows := by
    simp [recordAdminAction, ha]
  rw [(recomputes_adminRow_iff env db input hc).1 (h _ hrow)] at hplain
  cases hplain

/-- The rows of a run recompute exactly when those before it did and every recorded action is plain. -/
theorem rows_recompute_iff (db : AdminDb) (inputs : List AdminInput)
    (hc : Lib.Run.Meets (recordAdminAction env) (NoCollision env) db inputs) :
    (∀ r ∈ (inputs.foldl (recordAdminAction env) db).rows,
        Recomputes (computeAdminHash env.sha256 env.toISOString) r.stored) ↔
      (∀ r ∈ db.rows, Recomputes (computeAdminHash env.sha256 env.toISOString) r.stored) ∧
        ∀ i ∈ inputs, env.accepts i = true → i.plainMetadata = true := by
  induction inputs generalizing db with
  | nil => simp
  | cons i inputs ih =>
    have hrow := recomputes_adminRow_iff env db i hc.1
    rw [List.foldl_cons, ih _ hc.2, List.forall_mem_cons]
    by_cases ha : env.accepts i = true
    · have hrows : (recordAdminAction env db i).rows = db.rows ++ [adminRow env (db.head.getD genesis) i] := by
        simp [recordAdminAction, ha]
      rw [hrows, List.forall_mem_append, List.forall_mem_singleton, hrow, and_assoc]
      simp [ha]
    · have hrows : recordAdminAction env db i = db := by simp [recordAdminAction, ha]
      rw [hrows]
      simp [ha]

/-- Over every sequence of recorded actions: each row recomputes to its hash, and the
`admin-verify` route calls the chain sound, exactly when every action that was
recorded had plain metadata. -/
theorem admin_chain_verifies_iff (env : Env) (inputs : List AdminInput)
    (hc : Lib.Run.Meets (recordAdminAction env) (NoCollision env) AdminDb.empty inputs) :
    ((∀ r ∈ (inputs.foldl (recordAdminAction env) AdminDb.empty).rows,
        computeAdminHash env.sha256 env.toISOString r.stored.prevHash r.stored.event = r.hash) ↔
      ∀ i ∈ inputs, env.accepts i = true → i.plainMetadata = true) ∧
    ((∃ result, adminVerify env (inputs.foldl (recordAdminAction env) AdminDb.empty) (some true) = .verified result ∧
        result.ok = true) ↔
      ∀ i ∈ inputs, env.accepts i = true → i.plainMetadata = true) := by
  have hrows := rows_recompute_iff env AdminDb.empty inputs hc
  have hempty : ∀ r ∈ AdminDb.empty.rows, Recomputes (computeAdminHash env.sha256 env.toISOString) r.stored :=
    List.forall_mem_nil _
  rw [and_iff_right hempty] at hrows
  refine ⟨hrows, ?_⟩
  rw [← hrows, ← adminVerify_ok_iff env (untouched_run env untouched_empty inputs)]
  refine ⟨?_, fun h => ⟨_, rfl, h⟩⟩
  intro h
  obtain ⟨result, hr, hok⟩ := h
  cases hr
  exact hok

/-- SHA-256 at the two texts of the row below. -/
def noteSha256 (text : Units) : Units :=
  let fields := "\n1\x1f2026-01-01T00:00:00.000Z\x1fa1\x1fa@x.io\x1fgrant.update\x1fgrant\x1fg1\x1f" ++
    "Updated access grant g1\x1f"
  if text = units (fields ++ "\x7b\"endsAt\":null\x7d\x1f") then
    units "caaaf7fc95d6e0a91c8dfe68551fc4ea90a1a0d6a5f6c446379edb441e63e98a"
  else if text = units (fields ++ "\x7b\x7d\x1f") then
    units "5d1c44bef9ded87ddda6ec67f81e49e9869662d70d00d9fb9573b11285dbb255"
  else []

def noteEnv : Env where
  sha256 := noteSha256
  toISOString := fun _ => units "2026-01-01T00:00:00.000Z"
  column := Jsonb.asWritten
  accepts := fun _ => true

/-- A grant whose note is changed and whose end is not. -/
def noteUpdate : AdminInput :=
  grantUpdate noteEnv.toISOString 1767225600000 (units "a1") (some (units "a@x.io")) (units "g1") none none

theorem noCollision_noteUpdate : NoCollision noteEnv AdminDb.empty noteUpdate := by
  intro h
  revert h
  decide +kernel

theorem admin_chain_verifies_iff_note :
    Lib.Run.Meets (recordAdminAction noteEnv) (NoCollision noteEnv) AdminDb.empty [noteUpdate] ∧
    ((∃ result, adminVerify noteEnv ([noteUpdate].foldl (recordAdminAction noteEnv) AdminDb.empty) (some true) =
        .verified result ∧ result.ok = true) ↔
      ∀ i ∈ [noteUpdate], noteEnv.accepts i = true → i.plainMetadata = true) := by
  have hc : Lib.Run.Meets (recordAdminAction noteEnv) (NoCollision noteEnv) AdminDb.empty [noteUpdate] :=
    ⟨noCollision_noteUpdate, trivial⟩
  exact ⟨hc, (admin_chain_verifies_iff noteEnv [noteUpdate] hc).2⟩

/-- Changing only the note of a grant breaks the chain for good: the field `endsAt` is
hashed as `null` and read back as missing. -/
theorem note_update_breaks_chain :
    (¬ ∀ r ∈ (recordAdminAction noteEnv AdminDb.empty noteUpdate).rows,
      computeAdminHash noteEnv.sha256 noteEnv.toISOString r.stored.prevHash r.stored.event = r.hash) ∧
    adminVerify noteEnv (recordAdminAction noteEnv AdminDb.empty noteUpdate) (some true) =
      .verified ⟨false, 1, some (units "1"), some (units "1"), false, some (units "1"), some .hash_mismatch⟩ := by
  constructor
  · exact not_recomputes noCollision_noteUpdate rfl (by decide +kernel)
  · decide +kernel

end Captivo.Audit
