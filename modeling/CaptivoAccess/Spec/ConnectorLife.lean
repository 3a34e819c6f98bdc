import CaptivoAccess.Lib.Threads
import CaptivoAccess.Spec.Enrollment

/-! The life of a connector: revoking it (`admin/connectors/route.ts`), re-pairing it
(`connectors/[id]/repair/route.ts`), redeeming a pairing (`lib/connector/enrollment.ts`)
and the data plane's reports of its state (`internal/connector/status/route.ts`), each
as the statements it makes. A statement takes effect at once; an update that finds no
row throws and changes nothing. -/

namespace Captivo.Enroll

open Lib.Threads

/-- Of the statements that matter one has no guard on the status: the update that kills a token at once. -/
inductive Label where
  | invalidate (id : String)
  | other
  deriving DecidableEq

abbrev Handling := Thread Rows Label

/-- `where: { id }`. -/
def hasId (scope : Scope) (id : String) (c : Connector) : Bool := sees scope c.tenantId && c.id = id

def findConnector (scope : Scope) (id : String) (d : Rows) : Option Connector := d.connectors.find? (hasId scope id)

/-- A statement that only reads. -/
def reading (next : Rows → Handling) : Handling := .act .other id next

def writing (f : Rows → Rows) (next : Handling) : Handling := .act .other f fun _ => next

def updateConnectors (sel : Connector → Bool) (f : Connector → Connector) (d : Rows) : Rows :=
  { d with connectors := updateWhere sel f d.connectors }

/-- `DELETE /api/admin/connectors`. -/
def revoke (scope : Scope) (id : String) : Handling :=
  reading fun d =>
    match findConnector scope id d with
    | none => .done
    | some _ => writing (updateConnectors (hasId scope id) fun c => { c with status := .REVOKED }) .done

def canRepairConnector (status : ConnectorStatus) : Bool := status ≠ .REVOKED

/-- What a re-pair makes up: its pairing's id and code, and a token nobody knows. -/
structure RepairFresh where
  pairingId : String
  codeHash : String
  throwaway : String
  now : ℤ

def createPairing (scope : Scope) (name connectorId : String) (fresh : RepairFresh) (d : Rows) : Rows :=
  { d with
    pairings := d.pairings ++ [⟨fresh.pairingId, stamp scope, fresh.codeHash, name, some connectorId,
      fresh.now + 15 * 60000, none⟩] }

/-- `POST /api/admin/connectors/[id]/repair`. The status is read once, at the start. -/
def repair (scope : Scope) (id : String) (invalidateNow : Bool) (fresh : RepairFresh) : Handling :=
  reading fun d =>
    match findConnector scope id d with
    | none => .done
    | some connector =>
      if canRepairConnector connector.status then
        writing (createPairing scope connector.name id fresh) <|
          if invalidateNow then
            .act (.invalidate id) (updateConnectors (hasId scope id)
              fun c => { c with tokenHash := fresh.throwaway, status := .PENDING }) fun _ => .done
          else .done
      else .done

/-- A transaction that throws gives the code back. -/
def unusePairing (scope : Scope) (id : String) (d : Rows) : Rows :=
  { d with pairings := updateWhere (fun p => sees scope p.tenantId && p.id = id) (fun p => { p with usedAt := none }) d.pairings }

/-- In multi-tenant mode the transaction is that of the request, which returns null and commits. -/
def redeemThread (env : Env) (multiTenant : Bool) (scope : Scope) (fresh : Fresh) (p : ConnectorPairing)
    (info : PairMeta) : Handling :=
  ofProg applyWrite .other (fun _ => .done)
    (fun
      | .PAIRING_ALREADY_USED => .done
      | .CONNECTOR_GONE => if multiTenant then .done else writing (unusePairing scope p.id) .done
      | _ => writing (unusePairing scope p.id) .done)
    (redeemCallback env scope fresh p info)

/-- `redeemPairing`, statement by statement. Multi-tenant, the pairing is found again in its tenant's scope. -/
def redeem (env : Env) (multiTenant : Bool) (fresh : Fresh) (code : String) (info : PairMeta) : Handling :=
  reading fun d =>
    match scanPairings env code fresh.now d with
    | none => .done
    | some p =>
      if multiTenant then
        reading fun d' =>
          match d'.pairings.find? fun q => sees (some p.tenantId) q.tenantId && q.id = p.id with
          | none => .done
          | some full =>
            if usedOrExpired fresh.now full then .done
            else redeemThread env true (some p.tenantId) fresh full info
      else redeemThread env false none fresh p info

inductive Reported where
  | ONLINE
  | OFFLINE
  deriving DecidableEq

def Reported.status : Reported → ConnectorStatus
  | .ONLINE => .ONLINE
  | .OFFLINE => .OFFLINE

/-- `POST /api/internal/connector/status`: the guard is in the update. -/
def reportStatus (scope : Scope) (id : String) (status : Reported) (version : Option String) : Handling :=
  writing (updateConnectors (rotatable scope id) fun c => { c with status := status.status, version := version.or c.version }) <|
    reading fun _ => .done

inductive Handler where
  | revoke (scope : Scope) (id : String)
  | repair (scope : Scope) (id : String) (invalidateNow : Bool) (fresh : RepairFresh)
  | redeem (fresh : Fresh) (code : String) (info : PairMeta)
  | reportStatus (scope : Scope) (id : String) (status : Reported) (version : Option String)

def Handler.thread (env : Env) (multiTenant : Bool) : Handler → Handling
  | .revoke scope id => Enroll.revoke scope id
  | .repair scope id invalidateNow fresh => Enroll.repair scope id invalidateNow fresh
  | .redeem fresh code info => Enroll.redeem env multiTenant fresh code info
  | .reportStatus scope id status version => Enroll.reportStatus scope id status version

def requests (env : Env) (multiTenant : Bool) (d : Rows) (handlers : ℕ → Handler) : Pool Rows Label :=
  ⟨d, fun i => (handlers i).thread env multiTenant⟩

/-- `validateConnectorToken`: the connector whose token it is. Multi-tenant, the scan does not see the
status, which a second statement reads. -/
def validateConnectorToken (env : Env) (multiTenant : Bool) (scanned checked : Rows) (token : String) : Option String :=
  if multiTenant then
    match scanned.connectors.find? fun c => env.verifyTokenHash token c.tokenHash with
    | none => none
    | some c =>
      match findConnector (some c.tenantId) c.id checked with
      | none => none
      | some live => if live.status = .REVOKED then none else some c.id
  else
    (scanned.connectors.find? fun c => c.status ≠ .REVOKED && env.verifyTokenHash token c.tokenHash).map Connector.id

end Captivo.Enroll
