import CaptivoAccess.Spec.GrantLife
import CaptivoAccess.Spec.UserAdmin

/-! The directory sync at sign-in with everything that it reads and what becomes of each read
(`syncUserAtLogin` in `lib/directory/sync.ts`, `getDirectoryConfig` in `config.ts`,
`listGroupMappingsLite` in `mappings.ts`, `shouldSkipSync` in `sync-throttle.ts` and
`resolveDirectoryUser` in `lib/connector/dataplane.ts`). Times are in milliseconds. -/

namespace Captivo.Directory

open Captivo.Enroll (Role)
open Captivo.RecFetch (Text)
open Captivo.Users (Mapping ReconcileDecision UserStmt computeReconcile)
open Captivo.Access (GrantStmt GrantTable)

/-! The reads. -/

structure DirectoryConfig where
  enabled : Bool
  connectorId : Option Text

structure DirectoryAnswer where
  found : Bool
  memberOf : Option (List Text)
  error : Text

inductive RowKind where
  | ROLE
  | SITE

structure GroupMappingRow where
  groupDN : Text
  kind : RowKind
  role : Option Role
  siteId : Option Text
  enabled : Bool

def CONSOLE_ROLES : List Role := [.ADMIN, .OPERATOR, .AUDITOR]

def liteMapping (r : GroupMappingRow) : Option Mapping :=
  match r.kind with
  | .ROLE => (r.role.filter (· ∈ CONSOLE_ROLES)).map fun role => ⟨.role role, r.groupDN, r.enabled⟩
  | .SITE => (r.siteId.filter (· ≠ [])).map fun siteId => ⟨.site siteId, r.groupDN, r.enabled⟩

/-- A read that fails is answered like a table without a row. -/
def listGroupMappingsLite (read : Option (List GroupMappingRow)) : List Mapping :=
  match read with
  | none => []
  | some rows => rows.filterMap liteMapping

/-- What becomes of each read, where it is made; none and false are failures. -/
structure Outcomes where
  config : Option (Option DirectoryConfig)
  /-- The time of the last sync. -/
  lastVerified : Bool
  bindPassword : Bool
  /-- None where the call or the reading of its body throws. -/
  resolved : Option DirectoryAnswer
  mappings : Option (List GroupMappingRow)
  grants : Bool
  writes : Bool
  /-- The request runs in one transaction of the database, as it does where there are many tenants. -/
  inTransaction : Bool

/-- A statement that fails takes the rest of its transaction along. -/
def Outcomes.writable (o : Outcomes) : Bool := o.writes && !(o.inTransaction && o.mappings.isNone)

def shouldSkipSync (lastVerifiedAt : Option ℤ) (now throttleMs : ℤ) : Bool :=
  0 < throttleMs && 0 < lastVerifiedAt.getD 0 && now - lastVerifiedAt.getD 0 < throttleMs

/-! The sync. -/

structure SyncState where
  users : Users.Table
  grants : GrantTable
  /-- `directoryLastVerifiedAt`, by the user's id. -/
  verifiedAt : Text → Option ℤ

structure DirectoryUser where
  id : Text
  role : Role
  directoryManaged : Bool

inductive SyncResult where
  | threw
  | returned (deprovisioned : Bool)
  deriving DecidableEq

/-- The state that is left, the result, and whether a read that was made has failed. -/
structure SyncRun where
  state : SyncState
  result : SyncResult
  failed : Bool

def stamp (id : Text) (now : ℤ) (s : SyncState) : SyncState := { s with verifiedAt := Function.update s.verifiedAt id (some now) }

/-- `deprovisionUser`. -/
def deprovision (id : Text) (now : ℤ) (s : SyncState) : SyncState :=
  stamp id now { s with users := (UserStmt.deprovision id).apply s.users, grants := (GrantStmt.deprovision id).apply s.grants }

/-- `provisionUser`. -/
def provision (user : DirectoryUser) (decision : ReconcileDecision) (now : ℤ) (s : SyncState) : SyncState :=
  stamp user.id now
    { s with
      users := (UserStmt.provision user.id (decision.role.filter (· ≠ user.role))).apply s.users
      grants := (Access.provisionUser user.id decision.grantSiteIds).alone s.grants }

def applyDecision (user : DirectoryUser) (o : Outcomes) (now : ℤ) (decision : ReconcileDecision) (s : SyncState) : SyncRun :=
  if decision.deprovision then
    if o.writable then ⟨deprovision user.id now s, .returned true, o.mappings.isNone⟩ else ⟨s, .threw, o.mappings.isNone⟩
  else if decision.role = none ∧ decision.grantSiteIds = [] then
    -- a stamp that fails is passed over
    ⟨if o.writable then stamp user.id now s else s, .returned false, o.mappings.isNone⟩
  else if o.grants = false then ⟨s, .threw, true⟩
  else if o.writable then ⟨provision user decision now s, .returned false, o.mappings.isNone⟩
  else ⟨s, .threw, o.mappings.isNone⟩

def syncUserAtLogin (lower : Text → Text) (throttleMs : ℤ) (user : DirectoryUser) (o : Outcomes) (now : ℤ) (s : SyncState) : SyncRun :=
  match o.config with
  | none => ⟨s, .returned false, true⟩
  | some cfg =>
    if (cfg.any fun c => c.enabled && c.connectorId.any (· ≠ [])) = false then ⟨s, .returned false, false⟩
    else if 0 < throttleMs ∧ o.lastVerified = false then ⟨s, .threw, true⟩
    else if shouldSkipSync (s.verifiedAt user.id) now throttleMs then ⟨s, .returned false, false⟩
    else if o.bindPassword = false then ⟨s, .returned false, true⟩
    else match o.resolved with
      | none => ⟨s, .returned false, true⟩
      | some answer =>
        if answer.error ≠ [] then ⟨s, .returned false, true⟩
        else
          let mappings := listGroupMappingsLite o.mappings
          let groups := if answer.found then answer.memberOf.getD [] else []
          applyDecision user o now (computeReconcile lower groups mappings user.directoryManaged) s

end Captivo.Directory
