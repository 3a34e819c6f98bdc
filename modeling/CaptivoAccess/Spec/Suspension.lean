import CaptivoAccess.Lib.Threads
import CaptivoAccess.Spec.DataPlane
import CaptivoAccess.Spec.SessionPolicy

/-! One tenant of a cloud deployment while it is suspended and re-activated
(`platform/tenants/[id]/status`), with the sign-ins to its console, the resolution of its
sessions (`lib/auth/session.ts`) and the access checks and gateway descriptors of its
sites. The tenant is found by its slug, by a session's token or by a site
(`prisma/rls/bootstrap.sql`). A transaction takes effect where it is committed, and an
answer is what its rows say where they are read. Times are in milliseconds. -/

namespace Captivo.Suspension

open Lib.Dns Lib.Threads Captivo.Access
open Captivo.DataPlane (Manager Site User CheckReason Descriptor findUser checkAccess gatewayDescriptor resolveTenantBySite)
open Captivo.Policy (SessionPolicy sessionTtlMs idleExpired evictionIds)

inductive TenantStatus where
  | ACTIVE
  | SUSPENDED
  deriving DecidableEq

structure Session where
  id : String
  userId : Text
  tokenHash : Text
  createdAt : ℤ
  expiresAt : ℤ
  lastSeenAt : ℤ
  mobile : Bool
  deriving DecidableEq

/-- What the manager answers about the tenant: the user of a session, a check of access, or what a tunnel connects with. -/
inductive Outcome where
  | session (userId : Option Text)
  | check (answer : Option (Bool × CheckReason))
  | descriptor (answer : Option Descriptor)

def Outcome.positive : Outcome → Bool
  | .session userId => userId.isSome
  | .check answer => answer.any Prod.fst
  | .descriptor answer => answer.isSome

/-- An answer, and whether a suspension was in force when it was given. -/
structure Answer where
  inForce : Bool
  outcome : Outcome

structure Cloud where
  manager : Manager
  multiTenant : manager.multiTenant = true
  tenant : Text

/-- What requests of the tenant change of what the manager answers from. -/
structure Tables where
  sites : Text → Option Site
  users : Text → Option User
  grants : Text → Text → Text → List Grant
  vendorIpAllowlist : Text → Option Text

def Cloud.having (c : Cloud) (t : Tables) : Manager :=
  { c.manager with sites := t.sites, users := t.users, grants := t.grants, vendorIpAllowlist := t.vendorIpAllowlist }

structure Realm where
  tables : Tables
  deleted : Bool
  status : TenantStatus
  sessions : List Session
  now : ℤ
  /-- What has happened: how often the tenant was activated, whether its sessions were ended and whether a suspend action
  completed since it was last suspended, and the answers. -/
  activations : ℕ
  wiped : Bool
  inForce : Bool
  answers : List Answer

/-- `resolve_tenant_by_slug` finds the tenant. -/
def resolvesBySlug (d : Realm) : Bool := d.status = .ACTIVE && !d.deleted

/-- What a sign-in that is accepted makes: the policy it read is that of the cache. -/
structure SignIn where
  sessionId : String
  userId : Text
  tokenHash : Text
  policy : SessionPolicy
  envTtlHours : ℚ

/-- The user's live sessions in a browser, oldest first. -/
def activeSessions (d : Realm) (userId : Text) : List String :=
  ((d.sessions.filter fun s => s.userId = userId && d.now < s.expiresAt && !s.mobile).insertionSort
    fun s s' => s.createdAt ≤ s'.createdAt).map (·.id)

def createSession (d : Realm) (signIn : SignIn) : List Session :=
  let evict := evictionIds (activeSessions d signIn.userId) signIn.policy.maxConcurrentPerUser
  let ttl := (sessionTtlMs signIn.policy.maxSessionHours signIn.envTtlHours).floor
  (d.sessions.filter fun s => s.id ∉ evict) ++
    [⟨signIn.sessionId, signIn.userId, signIn.tokenHash, d.now, d.now + ttl, d.now, false⟩]

/-- The user of a token, and the sessions after it was looked up. -/
def getSessionUser (c : Cloud) (d : Realm) (policy : SessionPolicy) (tokenHash : Text) : Option Text × List Session :=
  match d.sessions.find? (·.tokenHash = tokenHash) with
  | none => (none, d.sessions)
  | some s =>
    if s.expiresAt < d.now || s.mobile || !(findUser (c.having d.tables) c.tenant s.userId).any User.active then (none, d.sessions)
    else if idleExpired s.lastSeenAt d.now policy.idleTimeoutMinutes then (none, d.sessions.filter (·.id ≠ s.id))
    else (some s.userId, d.sessions.map fun r => if r.id = s.id then { r with lastSeenAt := d.now } else r)

def Realm.log (d : Realm) (outcome : Outcome) : Realm := { d with answers := d.answers ++ [⟨d.inForce, outcome⟩] }

/-- Statements. That of a suspend action after its first knows how often the tenant had been activated then. -/
inductive RealmStmt where
  | read
  | setTenantStatus (status : TenantStatus)
  | forceLogoutTenant (activations : ℕ) (fails : Bool)
  | complete (activations : ℕ)
  | createSession (signIn : SignIn)
  | destroySession (tokenHash : Text)
  | getSessionUser (policy : SessionPolicy) (tokenHash : Text)
  | check (userId siteId clientIp : Text)
  | descriptor (userId siteId : Text)
  /-- Other requests leave the users, sites, grants and settings like this. -/
  | edit (tables : Tables)
  | wait (ms : ℕ)

def RealmStmt.apply (c : Cloud) : RealmStmt → Realm → Realm
  | .read, d => d
  | .setTenantStatus .SUSPENDED, d => { d with status := .SUSPENDED }
  | .setTenantStatus .ACTIVE, d =>
    { d with status := .ACTIVE, activations := d.activations + 1, wiped := false, inForce := false }
  | .forceLogoutTenant activations fails, d =>
    if fails then d else { d with sessions := [], wiped := d.wiped || d.activations = activations }
  | .complete activations, d => { d with inForce := d.inForce || d.activations = activations }
  | .createSession signIn, d => { d with sessions := Suspension.createSession d signIn }
  | .destroySession tokenHash, d => { d with sessions := d.sessions.filter (·.tokenHash ≠ tokenHash) }
  | .getSessionUser policy tokenHash, d =>
    let found := Suspension.getSessionUser c d policy tokenHash
    ({ d with sessions := found.2 } : Realm).log (.session found.1)
  | .check userId siteId clientIp, d =>
    -- a site of another tenant is not asked for here
    if resolveTenantBySite (c.having d.tables) siteId = some c.tenant then
      d.log (.check (checkAccess (c.having d.tables) d.now userId siteId clientIp))
    else d
  | .descriptor userId siteId, d =>
    if resolveTenantBySite (c.having d.tables) siteId = some c.tenant then
      d.log (.descriptor (gatewayDescriptor (c.having d.tables) d.now userId siteId))
    else d
  | .edit tables, d => { d with tables := tables }
  | .wait ms, d => { d with now := d.now + ms }

/-! Requests. -/

abbrev RealmThread := Thread Realm RealmStmt

section Requests

variable (c : Cloud)

def perform (s : RealmStmt) (next : Realm → RealmThread) : RealmThread := .act s (s.apply c) next

def lastly (s : RealmStmt) : RealmThread := perform c s fun _ => .done

/-- `POST /api/platform/tenants/[id]/status`. A failed status update fails the action; that the sessions could not be ended
does not. -/
def suspend (statusFails logoutFails : Bool) : RealmThread :=
  perform c .read fun d =>
    if d.deleted || statusFails then .done
    else perform c (.setTenantStatus .SUSPENDED) fun d =>
      perform c (.forceLogoutTenant d.activations logoutFails) fun _ => lastly c (.complete d.activations)

def activate : RealmThread :=
  perform c .read fun d => if d.deleted then .done else lastly c (.setTenantStatus .ACTIVE)

/-- A sign-in at the tenant's console: the tenant is resolved, then the request runs in its scope. -/
def signInRequest (signIn : SignIn) (accepted : Bool) : RealmThread :=
  perform c .read fun d => if resolvesBySlug d && accepted then lastly c (.createSession signIn) else .done

/-- `POST /api/internal/session/resolve`. -/
def sessionResolve (policy : SessionPolicy) (tokenHash : Text) : RealmThread :=
  perform c .read fun d =>
    if d.sessions.any (·.tokenHash = tokenHash) then lastly c (.getSessionUser policy tokenHash) else .done

def consoleRequest (policy : SessionPolicy) (tokenHash : Text) : RealmThread :=
  perform c .read fun d => if resolvesBySlug d then lastly c (.getSessionUser policy tokenHash) else .done

def signOut (tokenHash : Text) : RealmThread :=
  perform c .read fun d => if resolvesBySlug d then lastly c (.destroySession tokenHash) else .done

end Requests

inductive RealmRequest where
  | suspend (statusFails logoutFails : Bool)
  | activate
  | signIn (s : SignIn) (accepted : Bool)
  | signOut (tokenHash : Text)
  | session (policy : SessionPolicy) (tokenHash : Text)
  | console (policy : SessionPolicy) (tokenHash : Text)
  | check (userId siteId clientIp : Text)
  | descriptor (userId siteId : Text)
  | edit (tables : Tables)
  | wait (ms : ℕ)

def RealmRequest.thread (c : Cloud) : RealmRequest → RealmThread
  | .suspend statusFails logoutFails => Suspension.suspend c statusFails logoutFails
  | .activate => Suspension.activate c
  | .signIn s accepted => signInRequest c s accepted
  | .signOut tokenHash => Suspension.signOut c tokenHash
  | .session policy tokenHash => sessionResolve c policy tokenHash
  | .console policy tokenHash => consoleRequest c policy tokenHash
  | .check userId siteId clientIp => lastly c (.check userId siteId clientIp)
  | .descriptor userId siteId => lastly c (.descriptor userId siteId)
  | .edit tables => lastly c (.edit tables)
  | .wait ms => lastly c (.wait ms)

def realm (tables : Tables) (deleted : Bool) (sessions : List Session) (now : ℤ) : Realm :=
  ⟨tables, deleted, .ACTIVE, sessions, now, 0, false, false, []⟩

def realmPool (c : Cloud) (d : Realm) (requests : List RealmRequest) : Pool Realm RealmStmt :=
  ⟨d, fun i => (requests[i]?).elim .done (RealmRequest.thread c)⟩

end Captivo.Suspension
