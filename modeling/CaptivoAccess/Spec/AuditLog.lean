import CaptivoAccess.Lib.Group
import CaptivoAccess.Lib.Utf8
import CaptivoAccess.Spec.AuditChain

/-! Audit events of proxied requests, from the data plane's queue (`audit.go`) to the
chain of each tenant (`internal/audit/log/route.ts`, `lib/audit/append.ts`). The data
plane is shared: one batch holds events of many tenants. A statement whose text
parameter holds U+0000 is rejected by the database. -/

namespace Captivo.Audit

open Lib.JsonText Lib.JsValue Lib.HashChain Lib.Utf8

/-! The data plane. Texts are byte strings there. -/

structure AuditEvent where
  timestamp : ℤ
  userID : Bytes
  siteID : Bytes
  host : Bytes
  method : Bytes
  path : Bytes
  status : ℤ
  bytesOut : ℤ
  decision : Bytes
  reason : Bytes
  clientIP : Bytes
  userAgent : Bytes
  deriving DecidableEq

/-- What an event takes from the request. The path is percent-decoded: it can hold any byte. -/
structure Request where
  method : Bytes
  urlPath : Bytes
  xForwardedFor : Bytes
  userAgent : Bytes

/-- The part of the header before the first comma; `trimSpace` is `strings.TrimSpace`. -/
def firstHop (trimSpace : Bytes → Bytes) (xff : Bytes) : Bytes := trimSpace (xff.takeWhile (· ≠ 44))

def auditEvent (trimSpace : Bytes → Bytes) (now : ℤ) (decision reason userID siteID host : Bytes) (r : Request)
    (status bytes : ℤ) : AuditEvent where
  timestamp := now
  userID := userID
  siteID := siteID
  host := host
  method := r.method
  path := r.urlPath
  status := status
  bytesOut := bytes
  decision := decision
  reason := reason
  clientIP := firstHop trimSpace r.xForwardedFor
  userAgent := r.userAgent

structure AuditQueue where
  buf : List AuditEvent
  cap : ℕ
  dropped : ℕ

def NewAuditQueue (capacity : ℤ) : AuditQueue := ⟨[], (max capacity 1).toNat, 0⟩

/-- A full queue loses its oldest event, and counts it. -/
def AuditQueue.enqueue (q : AuditQueue) (ev : AuditEvent) : AuditQueue :=
  if q.cap ≤ q.buf.length then { q with buf := q.buf.tail ++ [ev], dropped := q.dropped + 1 }
  else { q with buf := q.buf ++ [ev] }

def AuditQueue.drain (q : AuditQueue) (max : ℕ) : List AuditEvent × AuditQueue :=
  (q.buf.take max, { q with buf := q.buf.drop max })

/-- The calls of a queue, in the order in which they get its lock. -/
inductive QueueCall where
  | enqueue (ev : AuditEvent)
  | drain (max : ℤ)

structure QueueRun where
  queue : AuditQueue
  drained : List AuditEvent

def QueueRun.call (s : QueueRun) : QueueCall → QueueRun
  | .enqueue ev => { s with queue := s.queue.enqueue ev }
  | .drain max =>
    -- a slice of a negative length panics before anything has changed, unless the queue is empty
    if max < 0 then s else ⟨(s.queue.drain max.toNat).2, s.drained ++ (s.queue.drain max.toNat).1⟩

def queueRun (capacity : ℤ) (calls : List QueueCall) : QueueRun := calls.foldl QueueRun.call ⟨NewAuditQueue capacity, []⟩

/-! Events as the route gets them. -/

def utf16 (c : ℕ) : Units :=
  if c < 0x10000 then [UInt16.ofNat c]
  else [UInt16.ofNat (0xD800 + (c - 0x10000) / 1024), UInt16.ofNat (0xDC00 + (c - 0x10000) % 1024)]

def unitsUpTo : ℕ → Bytes → Units
  | 0, _ => []
  | n + 1, bs =>
    match decodeRune bs with
    | none => []
    | some (c, rest) => utf16 c ++ unitsUpTo n rest

/-- A Go string as `json.Marshal` writes it and `JSON.parse` reads it. -/
def toUnits (bs : Bytes) : Units := unitsUpTo bs.length bs

/-- `timestamp` is the time that the text stands for. -/
structure AuditInput where
  timestamp : Option ℤ
  userId : Option Units
  siteId : Option Units
  host : Option Units
  method : Option Units
  path : Option Units
  status : Option ℤ
  bytesOut : Option ℤ
  decision : Option Units
  reason : Option Units
  clientIp : Option Units
  userAgent : Option Units

/-- `json:",omitempty"`. -/
def omitempty (bs : Bytes) : Option Units := if bs = [] then none else some (toUnits bs)

def AuditEvent.json (ev : AuditEvent) : AuditInput where
  timestamp := some ev.timestamp
  userId := omitempty ev.userID
  siteId := omitempty ev.siteID
  host := some (toUnits ev.host)
  method := some (toUnits ev.method)
  path := some (toUnits ev.path)
  status := some ev.status
  bytesOut := some ev.bytesOut
  decision := some (toUnits ev.decision)
  reason := omitempty ev.reason
  clientIp := omitempty ev.clientIP
  userAgent := omitempty ev.userAgent

/-! Appending to one tenant's chain. -/

structure UserNames where
  email : Option Units
  name : Option Units
  company : Option Units

structure NormalizedAuditRow where
  timestamp : ℤ
  userId : Option Units
  userEmail : Option Units
  userName : Option Units
  company : Option Units
  siteId : Option Units
  siteName : Option Units
  host : Units
  method : Units
  path : Units
  status : ℤ
  bytesOut : ℕ
  decision : Decision
  reason : Option Units
  clientIp : Option Units
  userAgent : Option Units
  deriving DecidableEq

structure AuditRow extends NormalizedAuditRow where
  seq : ℕ
  prevHash : Units
  hash : Units
  deriving DecidableEq

structure TenantDb where
  users : Units → Option UserNames
  sites : Units → Option Units
  head : Option ChainHead
  rows : List AuditRow

/-- `x ? f(x) : null`: the empty string is falsy. -/
def whenTruthy {α : Type} (x : Option Units) (f : Units → Option α) : Option α := (x.filter (· ≠ [])).bind f

def normalizeAuditInput (db : TenantDb) (now : ℤ) (e : AuditInput) : NormalizedAuditRow where
  timestamp := e.timestamp.getD now
  userId := e.userId
  userEmail := whenTruthy e.userId fun id => (db.users id).bind UserNames.email
  userName := whenTruthy e.userId fun id => (db.users id).bind UserNames.name
  company := whenTruthy e.userId fun id => (db.users id).bind UserNames.company
  siteId := e.siteId
  siteName := whenTruthy e.siteId db.sites
  host := e.host.getD []
  method := e.method.getD []
  path := e.path.getD []
  status := e.status.getD 0
  bytesOut := (e.bytesOut.getD 0).toNat
  decision := if e.decision = some (units "DENY") then .DENY else .ALLOW
  reason := e.reason
  clientIp := e.clientIp
  userAgent := e.userAgent

def NormalizedAuditRow.chainable (n : NormalizedAuditRow) (seq : ℕ) : ChainableEvent where
  seq := seq
  timestamp := n.timestamp
  userId := n.userId
  siteId := n.siteId
  host := n.host
  method := n.method
  path := n.path
  status := n.status
  bytesOut := n.bytesOut
  decision := n.decision
  reason := n.reason
  clientIp := n.clientIp
  userAgent := n.userAgent

def AuditRow.stored (r : AuditRow) : Stored ChainableEvent := ⟨r.toNormalizedAuditRow.chainable r.seq, r.prevHash, r.hash⟩

def hasNul (s : Units) : Bool := s.contains 0

def NormalizedAuditRow.texts (n : NormalizedAuditRow) : List Units :=
  [n.host, n.method, n.path] ++
    [n.userId, n.userEmail, n.userName, n.company, n.siteId, n.siteName, n.reason, n.clientIp, n.userAgent].filterMap id

/-- The insert takes the row: no text holds U+0000 and the status fits its column. -/
def storable (n : NormalizedAuditRow) : Bool :=
  n.texts.all (fun t => !hasNul t) && decide (-2147483648 ≤ n.status ∧ n.status ≤ 2147483647)

def lookupIds (events : List AuditInput) : List Units :=
  events.filterMap (fun e => e.userId.filter (· ≠ [])) ++ events.filterMap fun e => e.siteId.filter (· ≠ [])

section Append

variable (sha256 : Units → Units) (toISOString : ℤ → Units)

def chainRow (head : ChainHead) (n : NormalizedAuditRow) : AuditRow :=
  { n with
    seq := head.lastSeq + 1
    prevHash := head.lastHash
    hash := computeHash sha256 toISOString head.lastHash (n.chainable (head.lastSeq + 1)) }

/-- The rows of the loop that advances `lastSeq` and `lastHash`. -/
def chainRows : ChainHead → List NormalizedAuditRow → List AuditRow
  | _, [] => []
  | head, n :: ns =>
    let row := chainRow sha256 toISOString head n
    row :: chainRows ⟨row.seq, row.hash⟩ ns

def headOf (head : ChainHead) (rows : List AuditRow) : ChainHead :=
  rows.foldl (fun _ row => ⟨row.seq, row.hash⟩) head

/-- `none` when a statement is rejected: the transaction is rolled back and the error goes on. -/
def appendAuditEvents (db : TenantDb) (now : ℤ) (events : List AuditInput) : Option (TenantDb × ℕ) :=
  if events = [] then some (db, 0)
  else if (lookupIds events).any hasNul then none
  else
    let normalized := events.map (normalizeAuditInput db now)
    let head := db.head.getD genesis
    let rows := chainRows sha256 toISOString head normalized
    if normalized.all storable then
      some ({ db with head := some (headOf head rows), rows := db.rows ++ rows }, rows.length)
    else none

end Append

/-! The route. -/

structure LogEnv where
  multiTenant : Bool
  sha256 : Units → Units
  toISOString : ℤ → Units
  /-- `resolve_tenant_by_site`. -/
  bySite : Units → Option Units
  /-- `resolve_tenant_by_hostname`. -/
  byHostname : Units → Option Units
  /-- `host.toLowerCase().trim()`. -/
  hostKey : Units → Units

abbrev Db := Units → TenantDb

/-- `none` when the statement rejects its parameter. -/
def callResolver (fn : Units → Option Units) (key : Units) : Option (Option Units) :=
  if hasNul key then none else some (fn key)

/-- Of an event without a site, or whose site has no tenant, the host decides. -/
def resolveByHost (env : LogEnv) (e : AuditInput) : Option (Option Units) :=
  match e.host.filter (· ≠ []) with
  | some host => callResolver env.byHostname (env.hostKey host)
  | none => some none

def resolveEventTenant (env : LogEnv) (e : AuditInput) : Option (Option Units) :=
  match e.siteId.filter (· ≠ []) with
  | some siteId =>
    match callResolver env.bySite siteId with
    | none => none
    | some tid => if (tid.filter (· ≠ [])).isSome then some tid else resolveByHost env e
  | none => resolveByHost env e

/-- Each event under its tenant; the number of those without one. -/
def groupEvents (env : LogEnv) : Lib.Group.Groups Units AuditInput → ℕ → List AuditInput →
    Option (Lib.Group.Groups Units AuditInput × ℕ)
  | groups, dropped, [] => some (groups, dropped)
  | groups, dropped, e :: es =>
    match resolveEventTenant env e with
    | none => none
    | some tid =>
      match tid.filter (· ≠ []) with
      | none => groupEvents env groups (dropped + 1) es
      | some tid => groupEvents env (Lib.Group.push tid e groups) dropped es

/-- One transaction for each group. One that throws ends the loop; what was committed before it stays. -/
def appendGroups (env : LogEnv) (now : ℤ) : Db → ℕ → Lib.Group.Groups Units AuditInput → Db × Option ℕ
  | db, inserted, [] => (db, some inserted)
  | db, inserted, (tid, group) :: groups =>
    match appendAuditEvents env.sha256 env.toISOString (db tid) now group with
    | none => (db, none)
    | some (tenant, n) => appendGroups env now (Function.update db tid tenant) (inserted + n) groups

inductive LogResponse where
  | forbidden
  /-- The handler throws: a 500 without a body. -/
  | thrown
  | ok (inserted : ℕ) (dropped : Option ℕ)
  deriving DecidableEq

def defaultTenant : Units := units "default"

def logHandler (env : LogEnv) (now : ℤ) (db : Db) (events : List AuditInput) : Db × LogResponse :=
  if env.multiTenant then
    match groupEvents env [] 0 events with
    | none => (db, .thrown)
    | some (groups, dropped) =>
      match appendGroups env now db 0 groups with
      | (db, none) => (db, .thrown)
      | (db, some inserted) => (db, .ok inserted (some dropped))
  else
    match appendAuditEvents env.sha256 env.toISOString (db defaultTenant) now events with
    | none => (db, .thrown)
    | some (tenant, inserted) => (Function.update db defaultTenant tenant, .ok inserted none)

/-- `POST /api/internal/audit/log`. -/
def postLog (env : LogEnv) (now : ℤ) (db : Db) (secretOk : Bool) (events : List AuditInput) : Db × LogResponse :=
  if secretOk then logHandler env now db events else (db, .forbidden)

/-- One tick of `RunAuditFlush`: what was drained is not queued again, whatever the answer. -/
def runAuditFlush (env : LogEnv) (now : ℤ) (q : AuditQueue) (db : Db) (batch : ℕ) : AuditQueue × Db :=
  let (evs, q) := q.drain batch
  if evs = [] then (q, db) else (q, (postLog env now db true (evs.map AuditEvent.json)).1)

end Captivo.Audit
