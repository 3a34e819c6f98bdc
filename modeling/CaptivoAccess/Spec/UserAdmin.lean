import CaptivoAccess.Lib.Threads
import CaptivoAccess.Spec.Enrollment
import CaptivoAccess.Spec.RecFetch

/-! The users of a self-hosted tenant: what the console does to them (`PATCH` and `DELETE` of
`admin/users/[id]/route.ts`) and what a directory sync at sign-in does (`lib/directory/sync.ts`
after the decision of `lib/directory/reconcile.ts`), each as the statements it makes. A
statement takes effect at once. -/

namespace Captivo.Users

open Lib.Threads
open Captivo.Enroll (Role)
open Captivo.RecFetch (Text trim)

inductive UserStatus where
  | ACTIVE
  | DISABLED
  deriving DecidableEq

inductive CenterRole where
  | OWNER
  | ADMIN
  | MEMBER
  deriving DecidableEq

structure User where
  id : Text
  role : Role
  status : UserStatus
  directoryManaged : Bool
  centerRole : Option CenterRole
  deriving DecidableEq

abbrev Table := List User

def findUser (id : Text) (d : Table) : Option User := d.find? (·.id = id)

/-! Roles. -/

inductive Capability where
  | configure
  | approve_grants
  | read_console
  | manage_tenants
  deriving DecidableEq

def roleCaps : Role → List Capability
  | .ADMIN => [.configure, .approve_grants, .read_console]
  | .OPERATOR => [.approve_grants, .read_console]
  | .AUDITOR => [.read_console]
  | .STAFF => []
  | .VENDOR => []
  | .PLATFORM => [.manage_tenants]

def can (role : Role) (cap : Capability) : Bool := cap ∈ roleCaps role

/-- `ASSIGNABLE_ROLES`, by name. -/
def assignableRoles : List (Text × Role) :=
  [("ADMIN".toList, .ADMIN), ("OPERATOR".toList, .OPERATOR), ("AUDITOR".toList, .AUDITOR), ("STAFF".toList, .STAFF),
    ("VENDOR".toList, .VENDOR)]

/-- `VALID_STATUSES`, by name. -/
def validStatuses : List (Text × UserStatus) := [("ACTIVE".toList, .ACTIVE), ("DISABLED".toList, .DISABLED)]

def consoleRolesFor : CenterRole → List Role
  | .MEMBER => [.OPERATOR, .AUDITOR, .STAFF]
  | _ => [.ADMIN, .OPERATOR, .AUDITOR, .STAFF]

def consoleRoleAllowed (centerRole : CenterRole) (role : Role) : Bool := role ∈ consoleRolesFor centerRole

/-! Statements. -/

inductive UserStmt where
  | read
  /-- The write of a request that `actor` makes. -/
  | update (actor target : Text) (status : Option UserStatus) (role : Option Role)
  | delete (actor target : Text)
  /-- The writes of a directory sync: a role where it changes, or the end of the account. -/
  | provision (id : Text) (role : Option Role)
  | deprovision (id : Text)

def updateUser (id : Text) (f : User → User) (d : Table) : Table := d.map fun u => if u.id = id then f u else u

def UserStmt.apply : UserStmt → Table → Table
  | .read => id
  | .update _ target status role =>
    updateUser target fun u => { u with status := status.getD u.status, role := role.getD u.role }
  | .delete _ target => fun d => d.filter fun u => u.id ≠ target
  | .provision id role => updateUser id fun u => { u with directoryManaged := true, role := role.getD u.role }
  | .deprovision id => updateUser id fun u => { u with status := .DISABLED }

abbrev UserThread := Thread Table UserStmt

def exec (s : UserStmt) (next : Table → UserThread) : UserThread := .act s s.apply next

def finish (s : UserStmt) : UserThread := exec s fun _ => .done

/-! The console. -/

/-- `getCurrentUser` of a live session of the user, and `can(admin.role, "configure")`. -/
def asAdmin (actor : Text) (next : User → UserThread) : UserThread :=
  exec .read fun d =>
    match findUser actor d with
    | none => .done
    | some admin => if admin.status = .ACTIVE ∧ can admin.role .configure = true then next admin else .done

/-- Where a field is not given there is nothing to check, and where it is given it has to be one of the names. -/
def oneOf {α : Type} (names : List (Text × α)) : Option Text → Option (Option α)
  | none => some none
  | some name => (names.find? (·.1 = name)).map fun entry => some entry.2

/-- A user whom the centre manages keeps the status, and a role under the centre's ceiling. -/
def centerAllows (centerRole : Option CenterRole) (status : Option UserStatus) (role : Option Role) : Bool :=
  match centerRole with
  | none => true
  | some c => status.isNone && role.all (consoleRoleAllowed c)

/-- `PATCH /api/admin/users/[id]`. -/
def patchUser (actor id : Text) (status role : Option Text) : UserThread :=
  asAdmin actor fun admin =>
    if status.all (· = []) && role.all (· = []) then .done
    else match oneOf validStatuses status, oneOf assignableRoles role with
      | some status, some role =>
        if id = admin.id ∧ (status = some .DISABLED ∨ role.isSome = true) then .done
        else exec .read fun d =>
          match findUser id d with
          | none => .done
          | some target => if centerAllows target.centerRole status role then finish (.update admin.id id status role) else .done
      | _, _ => .done

/-- `DELETE /api/admin/users/[id]`. -/
def deleteUser (actor id : Text) : UserThread :=
  asAdmin actor fun admin =>
    if id = admin.id then .done
    else exec .read fun d =>
      match findUser id d with
      | none => .done
      | some target => if target.role = .ADMIN ∨ target.centerRole.isSome = true then .done else finish (.delete admin.id id)

/-! The directory. -/

inductive MappingKind where
  | role (role : Role)
  | site (siteId : Text)

structure Mapping where
  kind : MappingKind
  groupDN : Text
  enabled : Bool

structure ReconcileDecision where
  deprovision : Bool
  role : Option Role
  grantSiteIds : List Text

section

variable (lower : Text → Text)

def normalizeDN (dn : Text) : Text := lower (List.intercalate [','] ((dn.splitOn ',').map trim))

/-- The value of the first part of a DN. -/
def cnOf (dn : Text) : Text :=
  let first := trim ((dn.splitOn ',').headD [])
  lower (trim (if '=' ∈ first then (first.dropWhile (· ≠ '=')).tail else first))

def isBareName (v : Text) : Bool := v ≠ [] && '=' ∉ v && ',' ∉ v

def Mapping.applies (groups : List Text) (m : Mapping) : Bool :=
  let g := trim m.groupDN
  m.enabled && if isBareName g then lower g ∈ groups.map (cnOf lower) else normalizeDN lower g ∈ groups.map (normalizeDN lower)

/-- `ROLE_RANK`. -/
def roleRank : Role → ℕ
  | .ADMIN => 3
  | .OPERATOR => 2
  | .AUDITOR => 1
  | _ => 0

def Mapping.role? (m : Mapping) : Option Role :=
  match m.kind with
  | .role r => some r
  | .site _ => none

def Mapping.site? (m : Mapping) : Option Text :=
  match m.kind with
  | .role _ => none
  | .site s => some s

def computeReconcile (groups : List Text) (mappings : List Mapping) (directoryManaged : Bool) : ReconcileDecision :=
  match mappings.filter (Mapping.applies lower groups) with
  | [] => ⟨directoryManaged, none, []⟩
  | matched =>
    let siteIds := matched.filterMap Mapping.site?
    let role := match matched.filterMap Mapping.role? with
      | [] => if siteIds = [] then none else some .STAFF
      | first :: rest => some (rest.foldl (fun best r => if roleRank best < roleRank r then r else best) first)
    ⟨false, role, siteIds.eraseDups⟩

/-- `syncUserAtLogin` of a user who signs in, where the directory has answered with the groups. -/
def syncUserAtLogin (id : Text) (groups : List Text) (mappings : List Mapping) : UserThread :=
  exec .read fun d =>
    match findUser id d with
    | none => .done
    | some user =>
      if user.status ≠ .ACTIVE then .done
      else
        let decision := computeReconcile lower groups mappings user.directoryManaged
        if decision.deprovision then finish (.deprovision user.id)
        else if decision.role = none ∧ decision.grantSiteIds = [] then .done
        else finish (.provision user.id (decision.role.filter (· ≠ user.role)))

inductive UserRequest where
  | patch (actor id : Text) (status role : Option Text)
  | delete (actor id : Text)
  | signIn (id : Text) (groups : List Text) (mappings : List Mapping)

def UserRequest.thread : UserRequest → UserThread
  | .patch actor id status role => patchUser actor id status role
  | .delete actor id => deleteUser actor id
  | .signIn id groups mappings => syncUserAtLogin lower id groups mappings

def userPool (d : Table) (requests : ℕ → UserRequest) : Pool Table UserStmt := ⟨d, fun i => (requests i).thread lower⟩

end

end Captivo.Users
