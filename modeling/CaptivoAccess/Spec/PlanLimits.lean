import CaptivoAccess.Spec.ConnectorLife

/-! What a tenant may have of sites, users and connectors (`lib/tenant/envelope.ts` over
`lib/platform/tenant-shape.ts`), and the requests that count against it or add to it in
multi-tenant mode: `admin/sites`, `admin/invites`, `admin/connectors`, its `repair` route,
`redeemPairing` and the invite mode of `registration/verify`. A transaction takes effect
where it is committed, any other statement at once. -/

namespace Captivo.Limits

open Lib.Threads Captivo.Enroll

inductive LimitKey where
  | maxUsers
  | maxSites
  | maxConnectors
  deriving DecidableEq

/-- `parseLimits`: a limit that is there is a positive number. -/
abbrev TenantLimits := LimitKey → Option ℕ

def EMPTY : TenantLimits := fun _ => none

def withinLimit (limits : TenantLimits) (key : LimitKey) (count : ℕ) : Bool := (limits key).all (count < ·)

structure Workspace where
  rows : Rows
  sites : List String
  limits : TenantLimits

def liveConnector (tenant : String) (c : Connector) : Bool := sees (some tenant) c.tenantId && c.status ≠ .REVOKED

/-- `db.site.count()`, `db.user.count()`, and the connectors that are not revoked. -/
def countOf (tenant : String) (d : Workspace) : LimitKey → ℕ
  | .maxUsers => d.rows.users.countP fun u => sees (some tenant) u.tenantId
  | .maxSites => d.sites.length
  | .maxConnectors => d.rows.connectors.countP (liveConnector tenant)

/-- What the request's scope commits of a transaction in it. What is thrown there is caught by the handler, so that only a
failed statement rolls it back. -/
def commit (p : Lib.Txn.Prog Rows Write Reply Err String) (rows : Rows) : Rows :=
  let result := Lib.Txn.exec applyWrite rows false p
  if result.aborted then rows else result.db

inductive PlanStmt where
  | read
  /-- The count, and the limits it is compared with: the tenant's, or what was answered instead. -/
  | count (key : LimitKey) (instead : Option TenantLimits)
  | createSite (id : String)
  | createInvite (i : Invite)
  | createPairing (p : ConnectorPairing)
  | redeem (fresh : Fresh) (p : ConnectorPairing) (info : PairMeta)
  | accept (fresh : Fresh) (invite : Invite) (uid : Option String) (displayName : String) (credential : Credential)
      (label : String)
  | revoke (id : String)
  | invalidate (id throwaway : String)

def PlanStmt.apply (env : Env) (tenant : String) : PlanStmt → Workspace → Workspace
  | .read, d => d
  | .count _ _, d => d
  | .createSite id, d => { d with sites := d.sites ++ [id] }
  | .createInvite i, d => { d with rows := { d.rows with invites := d.rows.invites ++ [i] } }
  | .createPairing p, d =>
    if d.rows.pairings.any (·.id = p.id) then d
    else { d with rows := { d.rows with pairings := d.rows.pairings ++ [p] } }
  | .redeem fresh p info, d => { d with rows := commit (redeemCallback env (some tenant) fresh p info) d.rows }
  | .accept fresh invite uid displayName credential label, d =>
    { d with rows := commit (enrollCallback (some tenant) fresh invite uid displayName credential label) d.rows }
  | .revoke id, d =>
    { d with rows := updateConnectors (hasId (some tenant) id) (fun c => { c with status := .REVOKED }) d.rows }
  | .invalidate id throwaway, d =>
    { d with
      rows := updateConnectors (hasId (some tenant) id) (fun c => { c with tokenHash := throwaway, status := .PENDING }) d.rows }

/-! Requests. -/

abbrev PlanThread := Thread Workspace PlanStmt

section Requests

variable (env : Env) (tenant : String)

def perform (s : PlanStmt) (next : Workspace → PlanThread) : PlanThread := .act s (s.apply env tenant) next

def lastly (s : PlanStmt) : PlanThread := perform env tenant s fun _ => .done

/-- `assertWithinLimit(key, await count)`, and then the insert, unless the request is refused for another reason. -/
def countThen (key : LimitKey) (instead : Option TenantLimits) (accepted : Bool) (insert : PlanStmt) : PlanThread :=
  perform env tenant (.count key instead) fun d =>
    if withinLimit (instead.getD d.limits) key (countOf tenant d key) && accepted then lastly env tenant insert else .done

/-- `POST /api/admin/sites`. -/
def siteRequest (id : String) (accepted : Bool) (instead : Option TenantLimits) : PlanThread :=
  countThen env tenant .maxSites instead accepted (.createSite id)

/-- `POST /api/admin/invites`. -/
def inviteRequest (i : Invite) (accepted : Bool) (instead : Option TenantLimits) : PlanThread :=
  countThen env tenant .maxUsers instead accepted (.createInvite { i with tenantId := tenant, usedAt := none })

def newPairing (name : String) (connectorId : Option String) (fresh : RepairFresh) : ConnectorPairing :=
  ⟨fresh.pairingId, tenant, fresh.codeHash, name, connectorId, fresh.now + 15 * 60000, none⟩

/-- `POST /api/admin/connectors`. -/
def connectorRequest (name : String) (fresh : RepairFresh) (instead : Option TenantLimits) : PlanThread :=
  countThen env tenant .maxConnectors instead (name ≠ "") (.createPairing (newPairing tenant name none fresh))

/-- `redeemPairing`. The code of another tenant is of another tenant. -/
def redeemRequest (fresh : Fresh) (code : String) (info : PairMeta) : PlanThread :=
  perform env tenant .read fun d =>
    match scanPairings env code fresh.now d.rows with
    | none => .done
    | some p =>
      if p.tenantId ≠ tenant then .done
      else perform env tenant .read fun d' =>
        match d'.rows.pairings.find? fun q => sees (some tenant) q.tenantId && q.id = p.id with
        | none => .done
        | some full => if usedOrExpired fresh.now full then .done else lastly env tenant (.redeem fresh full info)

/-- `POST /api/auth/registration/verify` with an invite. -/
def acceptRequest (fresh : Fresh) (req : InviteRequest) : PlanThread :=
  match truthy req.inviteToken with
  | none => .done
  | some token =>
    if req.rateLimited || !req.hasResponse then .done
    else perform env tenant .read fun d =>
      match verifyInvite env token (d.rows.invites.filter fun i =>
          sees (some tenant) i.tenantId && i.usedAt.isNone && fresh.now < i.expiresAt) with
      | none => .done
      | some invite =>
        if (req.name.isSome && (normalizeDisplayName env.isSpace req.name.join).isNone) || !req.hasChallenge ||
            !req.originMatches then .done
        else match req.verified with
          | none => .done
          | some credential =>
            lastly env tenant (.accept fresh invite req.uid
              ((normalizeDisplayName env.isSpace req.name.join).getD invite.name) credential
              (orElse (req.label.map env.trim) "Primary passkey"))

/-- `DELETE /api/admin/connectors`. -/
def revokeRequest (id : String) : PlanThread :=
  perform env tenant .read fun d =>
    match findConnector (some tenant) id d.rows with
    | none => .done
    | some _ => lastly env tenant (.revoke id)

/-- `POST /api/admin/connectors/[id]/repair`; a path has no empty part. -/
def repairRequest (id : String) (invalidateNow : Bool) (fresh : RepairFresh) : PlanThread :=
  perform env tenant .read fun d =>
    match findConnector (some tenant) id d.rows with
    | none => .done
    | some connector =>
      if canRepairConnector connector.status && id ≠ "" then
        perform env tenant (.createPairing (newPairing tenant connector.name (some id) fresh)) fun _ =>
          if invalidateNow then lastly env tenant (.invalidate id fresh.throwaway) else .done
      else .done

end Requests

inductive PlanRequest where
  | site (id : String) (accepted : Bool) (instead : Option TenantLimits)
  | invite (i : Invite) (accepted : Bool) (instead : Option TenantLimits)
  | connector (name : String) (fresh : RepairFresh) (instead : Option TenantLimits)
  | redeem (fresh : Fresh) (code : String) (info : PairMeta)
  | accept (fresh : Fresh) (req : InviteRequest)
  | revoke (id : String)
  | repair (id : String) (invalidateNow : Bool) (fresh : RepairFresh)

def PlanRequest.thread (env : Env) (tenant : String) : PlanRequest → PlanThread
  | .site id accepted instead => siteRequest env tenant id accepted instead
  | .invite i accepted instead => inviteRequest env tenant i accepted instead
  | .connector name fresh instead => connectorRequest env tenant name fresh instead
  | .redeem fresh code info => redeemRequest env tenant fresh code info
  | .accept fresh req => acceptRequest env tenant fresh req
  | .revoke id => revokeRequest env tenant id
  | .repair id invalidateNow fresh => repairRequest env tenant id invalidateNow fresh

def planPool (env : Env) (tenant : String) (d : Workspace) (requests : List PlanRequest) : Pool Workspace PlanStmt :=
  ⟨d, fun i => (requests[i]?).elim .done (PlanRequest.thread env tenant)⟩

end Captivo.Limits
