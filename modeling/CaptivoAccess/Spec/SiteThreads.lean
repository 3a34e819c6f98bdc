import CaptivoAccess.Lib.Threads
import CaptivoAccess.Spec.SiteRoutes

/-! The routes that write the site table, statement by statement: a check of the hostname
against the other tenants and the write after it are two statements, and other requests
come between them. The database checks its unique indexes with the write. -/

namespace Captivo.Site

open Lib.Dns Lib.Threads

inductive SiteStmt where
  | read
  | create (tenantId : Text) (hostname : Option Text) (customDomain : Bool) (mode : AccessMode) (vault : Bool)
  | setHost (tenant : Tenant) (id : ℕ) (hostname : Text) (customDomain : Bool)
  | clearHost (tenant : Tenant) (id : ℕ) (mode : AccessMode) (vault : Bool)
  | delete (tenant : Tenant) (id : ℕ)

/-- A write that violates a unique index fails and leaves the table as it is. -/
def SiteStmt.apply : SiteStmt → Sites → Sites
  | .read, s => s
  | .create tenantId hostname customDomain mode vault, s =>
    if hostname.any fun h => uniqueViolation s none tenantId h customDomain then s
    else s.create tenantId hostname customDomain mode vault
  | .setHost tenant id hostname customDomain, s =>
    if uniqueViolation s (some id) tenant.id hostname customDomain then s
    else s.update tenant id fun x => { x with hostname := some hostname, customDomain, mode := .transparent }
  | .clearHost tenant id mode vault, s => s.update tenant id fun x => { x with hostname := none, mode, vault }
  | .delete tenant id, s => { s with rows := s.rows.filter fun r => !r.is tenant id }

abbrev SiteThread := Thread Sites SiteStmt

def exec (stmt : SiteStmt) (next : Sites → SiteThread) : SiteThread := .act stmt stmt.apply next

def finish (stmt : SiteStmt) : SiteThread := exec stmt fun _ => .done

section Threads

variable (rt : Runtime) (domain : Text) (tenants : Tenants)

/-- The write of a hostname, after the check that no other tenant has it. -/
def checkHost (tenant : Tenant) (hostname : Text) (write : SiteStmt) : SiteThread :=
  exec .read fun s => if crossTenantHostnameTaken rt s tenant hostname then .done else finish write

def postThread (tenant : Tenant) (r : Request) : SiteThread :=
  match validateSiteInput rt r.body (opts rt domain r true) with
  | .error _ => .done
  | .ok v =>
    exec .read fun s =>
      if r.maxSites.any fun max => max ≤ (s.rows.filter (·.tenantId = tenant.id)).length then .done
      else if r.connectorKnown = false then .done
      else if r.logoError.isSome then .done
      else match v with
        | .transparent _ _ hostname customDomain _ _ _ _ _ =>
          checkHost rt tenant hostname (.create tenant.id (some hostname) customDomain .transparent false)
        | .isolated .. => finish (.create tenant.id none false .isolated false)
        | .gateway .. => finish (.create tenant.id none false .gateway true)

def patchThread (tenant : Tenant) (id : ℕ) (r : Request) : SiteThread :=
  match validateSiteInput rt r.body (opts rt domain r false) with
  | .error _ => .done
  | .ok v =>
    if r.connectorKnown = false then .done
    else exec .read fun s =>
      if (s.find tenant id).isNone then .done
      else if r.logoError.isSome then .done
      else match v with
        | .transparent _ _ hostname customDomain _ _ _ _ _ =>
          checkHost rt tenant hostname (.setHost tenant id hostname customDomain)
        | .isolated .. => finish (.clearHost tenant id .isolated false)
        | .gateway _ _ _ _ _ _ _ secret _ _ _ =>
          -- the credential is counted after the site was found
          exec .read fun s =>
            if (s.find tenant id).all (·.vault = false) ∧ secret = none then .done
            else finish (.clearHost tenant id .gateway true)

def deleteThread (tenant : Tenant) (id : ℕ) : SiteThread :=
  exec .read fun s => if (s.find tenant id).isNone then .done else finish (.delete tenant id)

def siteThread (request : Route × Request) : SiteThread :=
  match adminTenant rt domain tenants request.2 with
  | .error _ => .done
  | .ok tenant =>
    match request.1 with
    | .post => postThread rt domain tenant request.2
    | .patch id => patchThread rt domain tenant id request.2
    | .delete id => deleteThread tenant id

end Threads

end Captivo.Site
