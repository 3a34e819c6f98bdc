import CaptivoAccess.Lib.Run
import CaptivoAccess.Spec.RecStore

/-! Recordings of one tenant from their first chunk to the removal of their index row:
the manager's index (`lib/recording/erasure.ts`, the `ingest`, `erasure-ack` and
`recording-retention` routes), the connectors that keep the bytes (`recretention.go` over
the store of `recstore.go`), the sessions of the data plane that write chunks, and what is
on the way between them. Every statement of the manager runs in the tenant's scope. Times
are in milliseconds, and each machine has its own clock. -/

namespace Captivo.Erasure

open Lib.Utf8 Lib.FileTree Captivo.RecStore

/-! The index. -/

/-- A row of `SessionRecording`. -/
structure Row where
  recordingKey : Bytes
  siteId : String
  startedAt : ℤ
  lastEventAt : ℤ
  purgePendingAt : Option ℤ
  deriving DecidableEq

def requestErasure (now : ℤ) (key : Bytes) (rows : List Row) : List Row :=
  rows.map fun r => if r.recordingKey = key then { r with purgePendingAt := some now } else r

/-- The keys that are owed to a connector, as the sites point to it now. -/
def pendingErasuresByConnector (rows : List Row) (site : String → Option String) (connectorId : String) : List Bytes :=
  (rows.filter fun r => r.purgePendingAt.isSome && site r.siteId = some connectorId).map Row.recordingKey

/-- `recordingKey in keys` and pending. -/
def confirmed (keys : List Bytes) (r : Row) : Bool := r.recordingKey ∈ keys && r.purgePendingAt.isSome

def confirmErasures (keys : List Bytes) (rows : List Row) : List Row := rows.filter fun r => !confirmed keys r

def cutoffAt (now days : ℤ) : ℤ := now - days * 24 * 60 * 60 * 1000

def trimIndexAfterRetention (now retentionDays : ℤ) (rows : List Row) : List Row :=
  if retentionDays ≤ 0 then rows else rows.filter fun r => !(r.lastEventAt < cutoffAt now retentionDays)

/-- `POST /api/cron/recording-retention`, for the tenant. -/
def recordingRetention (now days : ℤ) (rows : List Row) : List Row :=
  if days ≤ 0 then rows else rows.filter fun r => !(r.startedAt < cutoffAt now days)

structure PolicyAck where
  retentionRemoved : ℕ
  purgedKeys : List Bytes
  deriving DecidableEq

/-- `POST /api/internal/recording/erasure-ack`. -/
def erasureAck (now days : ℤ) (ack : PolicyAck) (rows : List Row) : List Row :=
  let rows := confirmErasures ack.purgedKeys rows
  if 0 < ack.retentionRemoved then trimIndexAfterRetention now days rows else rows

/-- `POST /api/internal/recording/ingest`: the index of a chunk, or of the end of the capture. -/
def ingest (now : ℤ) (key : Bytes) (siteId : String) (truncated : Bool) (rows : List Row) : List Row :=
  if rows.any (·.recordingKey = key) then
    rows.map fun r => if r.recordingKey = key && !truncated then { r with lastEventAt := now } else r
  else rows ++ [⟨key, siteId, now, now, none⟩]

/-! The connector. -/

structure Policy where
  tenantID : Bytes
  recordingRetentionDays : ℤ
  purgeRecordingKeys : List Bytes
  deriving DecidableEq

/-- A tenant, where its connectors keep their stores, and Go's `AddDate(0, 0, -days)`. -/
structure Deployment where
  tenantID : Bytes
  root : String → Path
  sealChunk : String → Bytes → Option Bytes
  daysBefore : ℤ → ℤ → ℤ
  tenant_ok : checkSegment "tenant id" tenantID = .ok ()
  tenant_ne : tenantID ≠ [46]
  daysBefore_le : ∀ now days, 0 < days → daysBefore now days ≤ now

/-- The sweep of a policy: what is left, and how many recordings went. None is a sweep that was not made. -/
def sweep (dep : Deployment) (connectorId : String) (now : ℤ) (t : Tree) (p : Policy) : Tree × Option ℕ :=
  if 0 < p.recordingRetentionDays then
    let swept := purge now (dep.root connectorId) t p.tenantID (dep.daysBefore now p.recordingRetentionDays)
    (swept.1, swept.2.toOption)
  else (t, none)

/-- One key of the policy: a recording that is not there is confirmed too. -/
def eraseKey (root : Path) (tenantID : Bytes) (now : ℤ) (acc : Tree × List Bytes) (key : Bytes) : Tree × List Bytes :=
  let deleted := delete now root acc.1 tenantID key
  (deleted.1, match deleted.2 with
    | .ok _ => acc.2 ++ [key]
    | .error _ => acc.2)

def applyRecordingPolicy (dep : Deployment) (connectorId : String) (now : ℤ) (t : Tree) (p : Policy) : Tree × PolicyAck :=
  if p.tenantID = [] then (t, ⟨0, []⟩)
  else
    let swept := sweep dep connectorId now t p
    let erased := p.purgeRecordingKeys.foldl (eraseKey (dep.root connectorId) p.tenantID now) (swept.1, [])
    (erased.1, ⟨swept.2.getD 0, erased.2⟩)

/-! All of it. -/

inductive Format where
  | rrweb
  | guac
  | keys
  | video
  deriving DecidableEq

def Format.segment : Format → Bytes
  | .rrweb => ascii "rrweb"
  | .guac => ascii "guac"
  | .keys => ascii "keys"
  | .video => ascii "video"

/-- A session that records, with the connector it was opened through. -/
structure Session where
  recordingKey : Bytes
  siteId : String
  connectorId : String
  deriving DecidableEq

structure World where
  rows : List Row
  site : String → Option String
  store : String → Tree
  clock : String → ℤ
  now : ℤ
  retentionDays : ℤ
  sessions : List Session
  /-- Policies on their way to a connector, and its acks on their way back. -/
  policies : List (String × Policy)
  acks : List (String × PolicyAck)
  /-- What has happened: the recordings whose erasure was requested, those whose row was removed because
  it was confirmed, the connectors that stored a chunk, and how far each connector has swept. -/
  requested : List Bytes
  erased : List Bytes
  stored : List String
  swept : String → Option ℤ

inductive Event where
  | request (key : Bytes)
  | push (connectorId : String)
  /-- A connector carries out the policy at this place and answers. -/
  | apply (i : ℕ)
  | ack (i : ℕ)
  /-- An ack that the data plane could not hand on. -/
  | loseAck (i : ℕ)
  | disconnect (connectorId : String)
  | openSession (siteId : String) (key : Bytes)
  | write (i : ℕ) (format : Format) (seq : ℤ) (plain : Bytes)
  | report (i : ℕ) (truncated : Bool)
  | closeSession (i : ℕ)
  | move (siteId : String) (connectorId : Option String)
  | cron
  | configure (days : ℤ)
  | wait (manager : ℕ) (connectors : String → ℕ)

def Session.stream (dep : Deployment) (s : Session) (format : Format) : Stream := ⟨dep.tenantID, s.recordingKey, format.segment⟩

def pushPolicy (dep : Deployment) (w : World) (connectorId : String) : World :=
  { w with
    policies := w.policies ++
      [(connectorId, ⟨dep.tenantID, w.retentionDays, pendingErasuresByConnector w.rows w.site connectorId⟩)] }

def sweptAfter (dep : Deployment) (connectorId : String) (now : ℤ) (t : Tree) (p : Policy) (mark : Option ℤ) : Option ℤ :=
  if p.tenantID ≠ [] && (sweep dep connectorId now t p).2.isSome then
    some (dep.daysBefore now p.recordingRetentionDays)
  else mark

def applyPolicy (dep : Deployment) (w : World) (connectorId : String) (p : Policy) : World :=
  let applied := applyRecordingPolicy dep connectorId (w.clock connectorId) (w.store connectorId) p
  { w with
    store := Function.update w.store connectorId applied.1
    acks := w.acks ++ [(connectorId, applied.2)]
    swept := Function.update w.swept connectorId
      (sweptAfter dep connectorId (w.clock connectorId) (w.store connectorId) p (w.swept connectorId)) }

def writeChunk (dep : Deployment) (w : World) (s : Session) (format : Format) (seq : ℤ) (plain : Bytes) : World :=
  { w with
    store := Function.update w.store s.connectorId
      (append (dep.sealChunk s.connectorId) (w.clock s.connectorId) (dep.root s.connectorId) (w.store s.connectorId)
        (s.stream dep format) seq plain).1
    stored := s.connectorId :: w.stored }

/-- An event at a place where nothing is changes nothing. -/
def step (dep : Deployment) (w : World) : Event → World
  | .request key => { w with rows := requestErasure w.now key w.rows, requested := key :: w.requested }
  | .push connectorId => pushPolicy dep w connectorId
  | .apply i =>
    match w.policies[i]? with
    | none => w
    | some (connectorId, p) => applyPolicy dep { w with policies := w.policies.eraseIdx i } connectorId p
  | .ack i =>
    match w.acks[i]? with
    | none => w
    | some (_, ack) =>
      { w with
        acks := w.acks.eraseIdx i
        rows := erasureAck w.now w.retentionDays ack w.rows
        erased := (w.rows.filter (confirmed ack.purgedKeys)).map Row.recordingKey ++ w.erased }
  | .loseAck i => { w with acks := w.acks.eraseIdx i }
  | .disconnect connectorId =>
    { w with
      policies := w.policies.filter (·.1 ≠ connectorId)
      acks := w.acks.filter (·.1 ≠ connectorId) }
  | .openSession siteId key =>
    match w.site siteId with
    | none => w
    | some connectorId => { w with sessions := w.sessions ++ [⟨key, siteId, connectorId⟩] }
  | .write i format seq plain =>
    match w.sessions[i]? with
    | none => w
    | some s => writeChunk dep w s format seq plain
  | .report i truncated =>
    match w.sessions[i]? with
    | none => w
    | some s => { w with rows := ingest w.now s.recordingKey s.siteId truncated w.rows }
  | .closeSession i => { w with sessions := w.sessions.eraseIdx i }
  | .move siteId connectorId => { w with site := Function.update w.site siteId connectorId }
  | .cron => { w with rows := recordingRetention w.now w.retentionDays w.rows }
  | .configure days => { w with retentionDays := days }
  | .wait manager connectors => { w with now := w.now + manager, clock := fun c => w.clock c + connectors c }

def run (dep : Deployment) (w : World) (events : List Event) : World := events.foldl (step dep) w

def start (site : String → Option String) (clock : String → ℤ) (now retentionDays : ℤ) : World where
  rows := []
  site := site
  store c := Tree.empty (clock c)
  clock := clock
  now := now
  retentionDays := retentionDays
  sessions := []
  policies := []
  acks := []
  requested := []
  erased := []
  stored := []
  swept _ := none

def Holds (t : Tree) (d : Path) : Prop := ∃ p content, d <+: p ∧ t.view p = some (some content)

def Stores (dep : Deployment) (w : World) (connectorId : String) (key : Bytes) : Prop :=
  ∃ d, recDir (dep.root connectorId) dep.tenantID key = .ok d ∧ Holds (w.store connectorId) d

end Captivo.Erasure
