import CaptivoAccess.Spec.RecStore

/-! Web recordings of one tenant: a page posts batches of events to the proxy
(`serveRecording` of `browserproxy.go`), which sends the bytes to the connector of the site
and an index of them to the manager (`recrrweb.go`, `recclient.go`, `rechandler.go`, the
`recording/ingest` route). The key and the number of a batch are the page's own. -/

namespace Captivo.Rrweb

open Lib.Utf8 Lib.FileTree Captivo.RecStore

structure Batch where
  recordingKey : Bytes
  seq : ℤ
  events : Bytes

/-- A row of `SessionRecording`; one of a web session has the format `RRWEB` and is not truncated. -/
structure Row where
  recordingKey : Bytes
  userId : Bytes
  siteId : Bytes
  host : Bytes
  eventCount : ℕ
  bytes : ℕ
  deriving DecidableEq

/-- The tenant, where its connectors keep their stores, and how a body is read. -/
structure Deployment where
  tenantID : Bytes
  root : Bytes → Path
  sealWith : Bytes → Bytes → Bytes → Option Bytes
  unmarshal : Bytes → Option Batch

structure Write where
  connectorID : Bytes
  recordingKey : Bytes
  seq : ℤ
  userID : Bytes
  siteID : Bytes
  deriving DecidableEq

structure World where
  store : Bytes → Tree
  rows : List Row
  /-- What has happened: the chunks in the order they were stored. -/
  writes : List Write

/-- A `POST /__captivo/rec` of a user who may use the site, and how its peers take it. -/
structure Post where
  userID : Bytes
  siteID : Bytes
  host : Bytes
  connectorID : Bytes
  recordSessions : Bool
  /-- None is a body that cannot be read. -/
  body : Option Bytes
  reaches : Bool
  now : ℤ
  nonce : Bytes
  indexed : Bool

def maxRecordingBatchBytes : ℕ := 8 * 2 ^ 20

/-- `POST /api/internal/recording/ingest`, for a chunk. -/
def ingest (userId siteId host key : Bytes) (bytes : ℕ) (rows : List Row) : List Row :=
  if rows.any (·.recordingKey = key) then
    rows.map fun r => if r.recordingKey = key then { r with eventCount := r.eventCount + 1, bytes := r.bytes + bytes } else r
  else rows ++ [⟨key, userId, siteId, host, 1, bytes⟩]

def rrweb : Bytes := ascii "rrweb"

/-- `writeRecChunk`, and `handleRecWrite` on the connector. -/
def writeRecChunk (dep : Deployment) (w : World) (p : Post) (batch : Batch) : World :=
  let stored := append (dep.sealWith p.connectorID p.nonce) p.now (dep.root p.connectorID) (w.store p.connectorID)
    ⟨dep.tenantID, batch.recordingKey, rrweb⟩ batch.seq (batch.events ++ [10])
  { w with
    store := Function.update w.store p.connectorID stored.1
    writes := match stored.2 with
      | .ok _ => w.writes ++ [⟨p.connectorID, batch.recordingKey, batch.seq, p.userID, p.siteID⟩]
      | .error _ => w.writes }

/-- `sendRrwebToConnector`: a chunk that is not stored is indexed all the same. -/
def sendRrwebToConnector (dep : Deployment) (w : World) (p : Post) (body : Bytes) : World :=
  match dep.unmarshal body with
  | none => w
  | some batch =>
    if batch.recordingKey = [] then w
    else
      let w := if p.reaches then writeRecChunk dep w p batch else w
      if p.indexed then { w with rows := ingest p.userID p.siteID p.host batch.recordingKey batch.events.length w.rows } else w

/-- `serveRecording`, with the status. -/
def serveRecording (dep : Deployment) (w : World) (p : Post) : World × ℕ :=
  if !p.recordSessions then (w, 404)
  else match p.body with
    | none => (w, 404)
    | some body => if maxRecordingBatchBytes < body.length then (w, 204) else (sendRrwebToConnector dep w p body, 204)

def step (dep : Deployment) (w : World) (p : Post) : World := (serveRecording dep w p).1

end Captivo.Rrweb
