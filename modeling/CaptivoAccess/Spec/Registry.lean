import CaptivoAccess.Spec.ConnectorLife

/-! The data plane's registry of connector sessions (`dataplane/registry.go`), the tunnel
handlers that use it (`HandleTunnel` in `wss.go`), the `/kick` endpoint of `main.go`, and
the status reports on their way to the manager (`internal/connector/status/route.ts`).
Handlers and kicks are numbered, and the session that handler `i` makes is session `i`. A
lock section is one step; everything else may happen between two steps of a handler. -/

namespace Captivo.Registry

open Captivo.Enroll

/-- Where a tunnel handler is. A registry change that is still to be reported has a number. -/
inductive TunnelPc where
  | connecting
  | registered (change : ℕ)
  | waiting
  | removed (change : ℕ)
  | closing
  | ended
  deriving DecidableEq

inductive KickPc where
  | asked
  | got (session : Option ℕ)
  | closed (session : Option ℕ)
  | ended
  deriving DecidableEq

/-- A call of `ReportStatus`, with the number of the registry change that it reports. -/
structure Report where
  connectorID : String
  status : Reported
  change : ℕ
  deriving DecidableEq

structure State where
  /-- `Registry.m`. -/
  m : String → Option ℕ
  closed : ℕ → Bool
  tunnel : ℕ → TunnelPc
  kick : ℕ → KickPc
  /-- The reports that have not been delivered. -/
  sent : List Report
  status : String → ConnectorStatus
  /-- How often the handlers have changed a connector's entry, and the last such change that was reported. -/
  changes : String → ℕ
  reported : String → ℕ

inductive Event where
  /-- Steps of handler `i`. -/
  | set (i : ℕ)
  | online (i : ℕ)
  | removeIfSame (i : ℕ)
  | offline (i : ℕ)
  | close (i : ℕ)
  /-- The connection of session `i` ends. -/
  | disconnect (i : ℕ)
  | deliver (r : Report)
  | revoke (id : String)
  /-- Steps of kick `k`. -/
  | kickGet (k : ℕ)
  | kickClose (k : ℕ)
  | kickRemove (k : ℕ)
  deriving DecidableEq

namespace State

def goOn (s : State) (i : ℕ) (pc : TunnelPc) : State := { s with tunnel := Function.update s.tunnel i pc }

def kickOn (s : State) (k : ℕ) (pc : KickPc) : State := { s with kick := Function.update s.kick k pc }

/-- `mux.Close()`, of a session or of nothing. -/
def closeMux (s : State) (session : Option ℕ) : State :=
  { s with closed := match session with
      | none => s.closed
      | some i => Function.update s.closed i true }

/-- `r.m[id] = s` or `delete(r.m, id)`. -/
def put (s : State) (id : String) (session : Option ℕ) : State := { s with m := Function.update s.m id session }

def count (s : State) (id : String) : State := { s with changes := Function.update s.changes id (s.changes id + 1) }

def send (s : State) (r : Report) : State := { s with sent := s.sent ++ [r] }

/-- `updateMany` with the guard on `REVOKED`. -/
def deliver (s : State) (r : Report) : State :=
  { s with
    sent := s.sent.erase r
    status := if s.status r.connectorID = .REVOKED then s.status
      else Function.update s.status r.connectorID r.status.status
    reported := Function.update s.reported r.connectorID r.change }

end State

section

variable (connector target : ℕ → String)

/-- One step of the handlers, which are those of `connector`, of the kicks, which are for `target`, or of the world. A
step that is not the next one of its handler changes nothing. -/
def step (s : State) : Event → State
  | .set i =>
    if s.tunnel i = .connecting then
      (((s.closeMux (s.m (connector i))).put (connector i) (some i)).count (connector i)).goOn i
        (.registered (s.changes (connector i) + 1))
    else s
  | .online i =>
    match s.tunnel i with
    | .registered change => (s.send ⟨connector i, .ONLINE, change⟩).goOn i .waiting
    | _ => s
  | .removeIfSame i =>
    -- the handler waits for its session to close
    if s.tunnel i = .waiting ∧ s.closed i = true then
      if s.m (connector i) = some i then
        ((s.put (connector i) none).count (connector i)).goOn i (.removed (s.changes (connector i) + 1))
      else s.goOn i .closing
    else s
  | .offline i =>
    match s.tunnel i with
    | .removed change => (s.send ⟨connector i, .OFFLINE, change⟩).goOn i .closing
    | _ => s
  | .close i => if s.tunnel i = .closing then (s.closeMux (some i)).goOn i .ended else s
  | .disconnect i => s.closeMux (some i)
  | .deliver r => if r ∈ s.sent then s.deliver r else s
  | .revoke id => { s with status := Function.update s.status id .REVOKED }
  | .kickGet k => if s.kick k = .asked then s.kickOn k (.got (s.m (target k))) else s
  | .kickClose k =>
    match s.kick k with
    | .got session => (s.closeMux session).kickOn k (.closed session)
    | _ => s
  | .kickRemove k =>
    match s.kick k with
    | .closed _ => (s.put (target k) none).kickOn k .ended
    | _ => s

def run (s : State) (events : List Event) : State := events.foldl (step connector target) s

end

def start (status : String → ConnectorStatus) : State :=
  ⟨fun _ => none, fun _ => false, fun _ => .connecting, fun _ => .asked, [], status, fun _ => 0, fun _ => 0⟩

end Captivo.Registry
