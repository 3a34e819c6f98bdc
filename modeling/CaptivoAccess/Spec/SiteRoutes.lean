import CaptivoAccess.Spec.SiteHost

/-! The site table and the routes that write it (`api/admin/sites/route.ts`,
`api/admin/sites/[id]/route.ts`), one request at a time. Of a row the columns are
kept that decide a request or name a host. -/

namespace Captivo.Site

open Lib.Dns

structure SiteRow where
  id : ℕ
  tenantId : Text
  hostname : Option Text
  customDomain : Bool
  mode : AccessMode
  vault : Bool
  deriving DecidableEq

structure Sites where
  rows : List SiteRow
  next : ℕ
  deriving DecidableEq

structure Request where
  host : Text
  signedIn : Bool
  mayConfigure : Bool
  body : Body
  nativeGateway : Bool
  recordingEnabled : Bool
  isolationEnabled : Bool
  maxSites : Option ℕ
  connectorKnown : Bool
  logoError : Option String

inductive Route where
  | post
  | patch (id : ℕ)
  | delete (id : ℕ)
  deriving DecidableEq

structure Reply where
  status : ℕ
  error : String
  deriving DecidableEq

def Reply.ok : Reply := ⟨200, ""⟩

section Routes

variable (rt : Runtime) (domain : Text) (tenants : Tenants)

/-- `resolve_tenant_by_hostname`; of several rows the database returns any. -/
def resolveTenantByHostname (s : Sites) (host : Text) : Option Text :=
  (s.rows.find? fun r => r.hostname = some (rt.trim (rt.lower host))).map (·.tenantId)

def crossTenantHostnameTaken (s : Sites) (acting : Tenant) (hostname : Text) : Bool :=
  match resolveTenantByHostname rt s hostname with
  | none => false
  | some owner => owner ≠ acting.id

/-- The two unique indexes: a hostname within a tenant, and a custom hostname over all tenants. -/
def uniqueViolation (s : Sites) (self : Option ℕ) (tenantId hostname : Text) (customDomain : Bool) : Bool :=
  s.rows.any fun r => some r.id ≠ self && r.hostname = some hostname &&
    (r.tenantId = tenantId || (customDomain && r.customDomain))

def opts (r : Request) (requireSecret : Bool) : SiteOpts where
  nativeGateway := r.nativeGateway
  requireSecret := requireSecret
  recordingEnabled := r.recordingEnabled
  isolationEnabled := r.isolationEnabled
  hostSuffix := siteHostSuffix rt domain r.host

/-- The tenant, the session and the role: what every route checks first. -/
def adminTenant (r : Request) : Except Reply Tenant :=
  match resolveRequestTenant rt tenants domain r.host with
  | none => .error ⟨404, "unknown_tenant"⟩
  | some tenant =>
    if r.signedIn = false then .error ⟨401, "unauthorized"⟩
    else if r.mayConfigure = false then .error ⟨403, "forbidden"⟩
    else .ok tenant

def invalid (e : String) : Reply :=
  ⟨if e = "native_gateway_disabled" ∨ e = "isolation_disabled" then 403 else 400, e⟩

def Sites.create (s : Sites) (tenantId : Text) (hostname : Option Text) (customDomain : Bool) (mode : AccessMode)
    (vault : Bool) : Sites :=
  ⟨s.rows ++ [⟨s.next, tenantId, hostname, customDomain, mode, vault⟩], s.next + 1⟩

/-- The row with the id, if row level security shows it to the tenant. -/
def SiteRow.is (r : SiteRow) (tenant : Tenant) (id : ℕ) : Bool := r.id = id && r.tenantId = tenant.id

def Sites.find (s : Sites) (tenant : Tenant) (id : ℕ) : Option SiteRow := s.rows.find? (·.is tenant id)

def Sites.update (s : Sites) (tenant : Tenant) (id : ℕ) (f : SiteRow → SiteRow) : Sites :=
  { s with rows := s.rows.map fun r => if r.is tenant id then f r else r }

def postSite (s : Sites) (tenant : Tenant) (r : Request) : Sites × Reply :=
  match validateSiteInput rt r.body (opts rt domain r true) with
  | .error e => (s, invalid e)
  | .ok v =>
    if r.maxSites.any fun max => max ≤ (s.rows.filter (·.tenantId = tenant.id)).length then (s, ⟨409, "limit_reached"⟩)
    else if r.connectorKnown = false then (s, ⟨400, "connector_not_found"⟩)
    else match r.logoError with
      | some e => (s, ⟨400, e⟩)
      | none =>
        match v with
        | .transparent _ _ hostname customDomain _ _ _ _ _ =>
          if crossTenantHostnameTaken rt s tenant hostname then (s, ⟨409, "hostname_taken"⟩)
          else if uniqueViolation s none tenant.id hostname customDomain then (s, ⟨409, "hostname_taken"⟩)
          else (s.create tenant.id (some hostname) customDomain .transparent false, .ok)
        | .isolated .. => (s.create tenant.id none false .isolated false, .ok)
        | .gateway .. => (s.create tenant.id none false .gateway true, .ok)

def patchSite (s : Sites) (tenant : Tenant) (id : ℕ) (r : Request) : Sites × Reply :=
  match validateSiteInput rt r.body (opts rt domain r false) with
  | .error e => (s, invalid e)
  | .ok v =>
    if r.connectorKnown = false then (s, ⟨400, "connector_not_found"⟩)
    else match s.find tenant id with
      | none => (s, ⟨404, "not_found"⟩)
      | some row =>
        match r.logoError with
        | some e => (s, ⟨400, e⟩)
        | none =>
          match v with
          | .transparent _ _ hostname customDomain _ _ _ _ _ =>
            if crossTenantHostnameTaken rt s tenant hostname then (s, ⟨409, "hostname_taken"⟩)
            else if uniqueViolation s (some id) tenant.id hostname customDomain then (s, ⟨409, "hostname_taken"⟩)
            else
              (s.update tenant id fun x => { x with hostname := some hostname, customDomain, mode := .transparent }, .ok)
          | .isolated .. =>
            (s.update tenant id fun x => { x with hostname := none, mode := .isolated, vault := false }, .ok)
          | .gateway _ _ _ _ _ _ _ secret _ _ _ =>
            if row.vault = false ∧ secret = none then (s, ⟨400, "remote_desktop_fields_required"⟩)
            else (s.update tenant id fun x => { x with hostname := none, mode := .gateway, vault := true }, .ok)

def deleteSite (s : Sites) (tenant : Tenant) (id : ℕ) : Sites × Reply :=
  match s.find tenant id with
  | none => (s, ⟨404, "not_found"⟩)
  | some _ => ({ s with rows := s.rows.filter fun r => !r.is tenant id }, .ok)

def serve (s : Sites) (request : Route × Request) : Sites × Reply :=
  match adminTenant rt domain tenants request.2 with
  | .error e => (s, e)
  | .ok tenant =>
    match request.1 with
    | .post => postSite rt domain s tenant request.2
    | .patch id => patchSite rt domain s tenant id request.2
    | .delete id => deleteSite s tenant id

end Routes

end Captivo.Site
