import CaptivoAccess.Spec.AuditChain

/-! Admin actions of one tenant: `recordAdminAction` (`lib/audit/admin.ts`) appends a
row, the `admin-verify` route reads the rows back and verifies the chain. -/

namespace Captivo.Audit

open Lib.JsonText Lib.JsValue Lib.HashChain

structure Metadata where
  fields : List (Units × JsVal)
  distinct : distinct (.obj fields) = true

structure AdminInput where
  now : ℤ
  actorId : Units
  actorEmail : Option Units
  action : Units
  targetType : Option Units
  targetId : Option Units
  summary : Units
  metadata : Option Metadata
  clientIp : Option Units

/-- A row of the table. The metadata column is NULL or holds a JSON value. -/
structure AdminAuditEvent where
  seq : ℕ
  timestamp : ℤ
  actorId : Option Units
  actorEmail : Option Units
  action : Units
  targetType : Option Units
  targetId : Option Units
  summary : Units
  metadata : Option JsVal
  clientIp : Option Units
  prevHash : Units
  hash : Units

structure AdminDb where
  head : Option ChainHead
  rows : List AdminAuditEvent

def AdminDb.empty : AdminDb := ⟨none, []⟩

/-- `accepts` says that the append goes through; when anything in it throws, the
transaction is rolled back and the error is logged. -/
structure Env where
  sha256 : Units → Units
  toISOString : ℤ → Units
  column : Jsonb
  accepts : AdminInput → Bool

/-- What is hashed on write: the metadata as the caller passed it. -/
def AdminInput.chainable (input : AdminInput) (seq : ℕ) : AdminChainable where
  seq := seq
  timestamp := input.now
  actorId := some input.actorId
  actorEmail := input.actorEmail
  action := input.action
  targetType := input.targetType
  targetId := input.targetId
  summary := input.summary
  metadata := match input.metadata with
    | some m => .obj m.fields
    | none => .null
  clientIp := input.clientIp

def adminRow (env : Env) (head : ChainHead) (input : AdminInput) : AdminAuditEvent where
  seq := head.lastSeq + 1
  timestamp := input.now
  actorId := some input.actorId
  actorEmail := input.actorEmail
  action := input.action
  targetType := input.targetType
  targetId := input.targetId
  summary := input.summary
  metadata := input.metadata.map fun m => roundTrip env.toISOString env.column (.obj m.fields)
  clientIp := input.clientIp
  prevHash := head.lastHash
  hash := computeAdminHash env.sha256 env.toISOString head.lastHash (input.chainable (head.lastSeq + 1))

def recordAdminAction (env : Env) (db : AdminDb) (input : AdminInput) : AdminDb :=
  if env.accepts input then
    let head := db.head.getD genesis
    let row := adminRow env head input
    ⟨some ⟨row.seq, row.hash⟩, db.rows ++ [row]⟩
  else db

def AdminAuditEvent.stored (r : AdminAuditEvent) : Stored AdminChainable where
  event := {
    seq := r.seq, timestamp := r.timestamp, actorId := r.actorId, actorEmail := r.actorEmail, action := r.action,
    targetType := r.targetType, targetId := r.targetId, summary := r.summary, metadata := r.metadata.getD .null,
    clientIp := r.clientIp }
  prevHash := r.prevHash
  hash := r.hash

/-- The rows up to the head, in the order of `seq`. -/
def verifiedRows (db : AdminDb) : List AdminAuditEvent :=
  (db.rows.filter fun r => db.head.all fun head => r.seq ≤ head.lastSeq).insertionSort fun r r' => r.seq ≤ r'.seq

inductive VerifyResponse where
  | unauthorized
  | forbidden
  | verified (result : ChainVerifyResult)
  deriving DecidableEq

/-- `GET /api/admin/audit/admin-verify`; the caller is signed in or not, and may read the console or not. -/
def adminVerify (env : Env) (db : AdminDb) (readConsole : Option Bool) : VerifyResponse :=
  match readConsole with
  | none => .unauthorized
  | some false => .forbidden
  | some true =>
    .verified (verifyAdminChain env.sha256 env.toISOString ((verifiedRows db).map AdminAuditEvent.stored) db.head)

/-- What `PATCH /api/admin/grants/[id]` records when it has changed the grant. -/
def grantUpdate (toISOString : ℤ → Units) (now : ℤ) (adminId : Units) (adminEmail : Option Units) (id : Units)
    (endsAt : Option ℤ) (clientIp : Option Units) : AdminInput where
  now := now
  actorId := adminId
  actorEmail := adminEmail
  action := units "grant.update"
  targetType := some (units "grant")
  targetId := some id
  summary := units "Updated access grant " ++ id
  metadata := some ⟨[(units "endsAt", match endsAt with
    | some t => .str (toISOString t)
    | none => .undefined)], by cases endsAt <;> simp [Lib.JsValue.distinct, distinctFields]⟩
  clientIp := clientIp

end Captivo.Audit
