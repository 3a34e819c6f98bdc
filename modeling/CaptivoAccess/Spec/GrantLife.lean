import CaptivoAccess.Lib.Threads
import CaptivoAccess.Spec.Access
import CaptivoAccess.Spec.Enrollment
import CaptivoAccess.Spec.RecFetch

/-! The life of a grant: `lib/access/grants.ts`, the checks of `lib/access/grant-edit.ts`,
the routes over them (`admin/grants`, `admin/grants/[id]`, `access/requests` and
`access/requests/[id]`) and what a directory sync does to grants (`lib/directory/sync.ts`),
each as the statements it makes in its tenant's scope. A statement takes effect at once,
and times are in milliseconds. -/

namespace Captivo.Access

open Lib.Dns Lib.Threads

/-! The table. -/

/-- A row of `AccessGrant`. The id is one that `cuid()` never hands out again. -/
structure GrantRow extends Grant where
  id : ℕ
  userId : Text
  siteId : Text
  directoryManaged : Bool
  createdAt : ℤ
  createdById : Option Text
  approvedById : Option Text
  note : Option Text
  denyReason : Option Text

inductive Deed where
  | create
  | edit
  | approve
  | deny
  | revoke
  | withdraw
  deriving DecidableEq

structure GrantTable where
  rows : List GrantRow
  nextId : ℕ
  now : ℤ
  maxGrantDays : Option ℤ
  /-- What was done to which grant, in order. -/
  deeds : List (ℕ × Deed)

structure NewGrant where
  userId : Text
  siteId : Text
  startsAt : Option ℤ
  endsAt : Option ℤ
  requiresApproval : Bool
  schedule : Option ScheduleJson
  directoryManaged : Bool
  createdById : Option Text
  note : Option Text

def NewGrant.row (g : NewGrant) (id : ℕ) (now : ℤ) : GrantRow where
  status := .ACTIVE
  startsAt := g.startsAt
  endsAt := g.endsAt
  requiresApproval := g.requiresApproval
  approvedAt := none
  schedule := g.schedule
  id := id
  userId := g.userId
  siteId := g.siteId
  directoryManaged := g.directoryManaged
  createdAt := now
  createdById := g.createdById
  approvedById := none
  note := g.note
  denyReason := none

def GrantTable.create (g : NewGrant) (t : GrantTable) : GrantTable :=
  { t with
    rows := t.rows ++ [g.row t.nextId t.now]
    nextId := t.nextId + 1
    deeds := t.deeds ++ [(t.nextId, .create)] }

def deedsOn (deed : Deed) (sel : GrantRow → Bool) (rows : List GrantRow) : List (ℕ × Deed) :=
  (rows.filter sel).map fun r => (r.id, deed)

def GrantTable.updateMany (deed : Deed) (sel : GrantRow → Bool) (f : GrantRow → GrantRow) (t : GrantTable) : GrantTable :=
  { t with
    rows := t.rows.map fun r => if sel r then f r else r
    deeds := t.deeds ++ deedsOn deed sel t.rows }

def GrantTable.deleteMany (sel : GrantRow → Bool) (t : GrantTable) : GrantTable :=
  { t with
    rows := t.rows.filter fun r => !sel r
    deeds := t.deeds ++ deedsOn .withdraw sel t.rows }

def GrantTable.find (t : GrantTable) (id : ℕ) : Option GrantRow := t.rows.find? (·.id = id)

/-- `PENDING_WHERE`. -/
def pendingWhere (r : GrantRow) : Bool := r.status = .ACTIVE && r.requiresApproval && r.approvedAt.isNone

/-! Statements. -/

inductive GrantStmt where
  | read
  /-- The settings, or what was answered instead: a cached row, or none where the read failed. -/
  | readSettings (instead : Option (Option ℤ))
  | create (g : NewGrant)
  | approve (id : ℕ) (adminId : Text) (now : ℤ)
  | deny (id : ℕ) (adminId : Text) (now : ℤ) (reason : Option Text)
  | revoke (id : ℕ)
  | edit (id : ℕ) (endsAt : Option ℤ) (note : Option (Option Text))
  | withdraw (id : ℕ) (userId : Text)
  | directoryRevoke (userId : Text) (siteIds : List Text)
  | deprovision (userId : Text)
  | wait (ms : ℕ)

def GrantStmt.apply : GrantStmt → GrantTable → GrantTable
  | .read => id
  | .readSettings _ => id
  | .create g => GrantTable.create g
  | .approve id adminId now =>
    .updateMany .approve (fun r => r.id = id && pendingWhere r)
      fun r => { r with approvedAt := some now, approvedById := some adminId }
  | .deny id adminId now reason =>
    .updateMany .deny (fun r => r.id = id && pendingWhere r)
      fun r => { r with status := .DENIED, approvedAt := some now, approvedById := some adminId, denyReason := reason }
  | .revoke id => .updateMany .revoke (·.id = id) fun r => { r with status := .REVOKED }
  | .edit id endsAt note =>
    .updateMany .edit (fun r => r.id = id && r.status = .ACTIVE)
      fun r => { r with endsAt := endsAt.or r.endsAt, note := note.getD r.note }
  | .withdraw id userId => .deleteMany fun r => r.id = id && r.userId = userId && pendingWhere r
  | .directoryRevoke userId siteIds =>
    .updateMany .revoke (fun r => r.userId = userId && r.status = .ACTIVE && r.directoryManaged && r.siteId ∈ siteIds)
      fun r => { r with status := .REVOKED }
  | .deprovision userId =>
    .updateMany .revoke (fun r => r.userId = userId && r.status = .ACTIVE) fun r => { r with status := .REVOKED }
  | .wait ms => fun t => { t with now := t.now + ms }

/-! Requests. -/

abbrev GrantThread := Thread GrantTable GrantStmt

def exec (s : GrantStmt) (next : GrantTable → GrantThread) : GrantThread := .act s s.apply next

def finish (s : GrantStmt) : GrantThread := exec s fun _ => .done

def resolvedMaxGrantDays (stored : Option ℤ) : ℤ := (stored.filter (0 < ·)).getD 0

/-- None is a date that cannot be read. -/
def grantEndsAtError (endsAt startsAt : Option ℤ) (now : ℤ) : Option String :=
  match endsAt with
  | none => some "invalid_ends_at"
  | some e =>
    if e ≤ now then some "ends_at_in_past"
    else if startsAt.any (e ≤ ·) then some "ends_at_before_start"
    else none

def grantCapError (startsAt endsAt : Option ℤ) (now maxGrantDays : ℤ) : Option String :=
  if maxGrantDays ≤ 0 then none
  else match endsAt with
    | none => some "grant_requires_end"
    | some e => if maxGrantDays * 24 * 60 * 60 * 1000 < e - startsAt.getD now then some "grant_exceeds_max" else none

/-- `grantCapError(startsAt, endsAt, new Date(), await resolvedMaxGrantDays())`, and the rest where it answers null. -/
def checkCap (startsAt endsAt : Option ℤ) (instead : Option (Option ℤ)) (next : GrantThread) : GrantThread :=
  exec .read fun t =>
    exec (.readSettings instead) fun t' =>
      match grantCapError startsAt endsAt t.now (resolvedMaxGrantDays (instead.getD t'.maxGrantDays)) with
      | some _ => .done
      | none => next

structure GrantBody where
  userId : Text
  siteId : Text
  startsAt : Option ℤ
  endsAt : Option ℤ
  schedule : Option ScheduleJson
  note : Option Text
  /-- It passes what is checked of it beyond its dates, and names what there is. -/
  accepted : Bool

def createGrant (body : GrantBody) (adminId : Text) : GrantThread :=
  finish (.create ⟨body.userId, body.siteId, body.startsAt, body.endsAt, false, body.schedule, false, some adminId, body.note⟩)

/-- `POST /api/admin/grants`. -/
def adminCreate (body : GrantBody) (adminId : Text) (instead : Option (Option ℤ)) : GrantThread :=
  checkCap body.startsAt body.endsAt instead <| if body.accepted then createGrant body adminId else .done

def createAccessRequest (body : GrantBody) : GrantThread :=
  exec .read fun t =>
    if t.rows.any fun r => r.userId = body.userId && r.siteId = body.siteId && pendingWhere r then .done
    else finish (.create ⟨body.userId, body.siteId, body.startsAt, body.endsAt, true, body.schedule, false,
      some body.userId, body.note⟩)

def heldBy (intl : Intl) (body : GrantBody) (t : GrantTable) : Bool :=
  t.rows.any fun r => r.userId = body.userId && r.siteId = body.siteId &&
    classifyGrant intl r.toGrant t.now ∉ [Reason.revoked, .denied, .expired]

/-- `POST /api/access/requests`. -/
def requestAccess (intl : Intl) (body : GrantBody) (instead : Option (Option ℤ)) : GrantThread :=
  if body.startsAt.any fun s => body.endsAt.any (· < s) then .done
  else checkCap body.startsAt body.endsAt instead <|
    if body.accepted then
      exec .read fun t => if heldBy intl body t then .done else createAccessRequest body
    else .done

def decideGrant (id : ℕ) (approve : Bool) (adminId : Text) (reason : Option Text) : GrantThread :=
  exec .read fun t => finish (if approve then .approve id adminId t.now else .deny id adminId t.now reason)

def revokeGrant (id : ℕ) : GrantThread := finish (.revoke id)

def NOTE_MAX : ℕ := 500

/-- The end of `PATCH /api/admin/grants/[id]`. A note that is not a text is none. -/
def writeEdit (id : ℕ) (endsAt : Option ℤ) : Option (Option Text) → GrantThread
  | none => finish (.edit id endsAt none)
  | some none => .done
  | some (some note) =>
    let note := Captivo.RecFetch.trim note
    if NOTE_MAX < Captivo.Enroll.jsLength note then .done
    else finish (.edit id endsAt (some (if note = [] then none else some note)))

/-- `PATCH /api/admin/grants/[id]`. The outer options are what the body has. -/
def editGrant (id : ℕ) (endsAt : Option (Option ℤ)) (note : Option (Option Text)) (instead : Option (Option ℤ)) : GrantThread :=
  if endsAt.isNone && note.isNone then .done
  else exec .read fun t =>
    match t.find id with
    | none => .done
    | some grant =>
      if grant.status ≠ .ACTIVE then .done
      else match endsAt with
        | none => writeEdit id none note
        | some endsAt =>
          exec .read fun t' =>
            match grantEndsAtError endsAt grant.startsAt t'.now with
            | some _ => .done
            | none => checkCap grant.startsAt endsAt instead (writeEdit id endsAt note)

/-- `DELETE /api/access/requests/[id]`. -/
def withdraw (id : ℕ) (userId : Text) : GrantThread :=
  exec .read fun t =>
    match t.find id with
    | none => .done
    | some grant =>
      if grant.userId ≠ userId then .done
      else if pendingWhere grant then finish (.withdraw id userId)
      else .done

/-- `planGrantChanges`: the sites to create grants on, and those to revoke them on. -/
def planGrantChanges (current desired : List Text) : List Text × List Text :=
  (desired.eraseDups.filter (· ∉ current), current.eraseDups.filter (· ∉ desired))

def directoryGrant (userId siteId : Text) : NewGrant :=
  ⟨userId, siteId, none, none, false, none, true, none, some "Provisioned from AD group".toList⟩

def createAll (userId : Text) (next : GrantThread) : List Text → GrantThread
  | [] => next
  | siteId :: siteIds => exec (.create (directoryGrant userId siteId)) fun _ => createAll userId next siteIds

/-- `provisionUser`, as far as it is about grants. -/
def provisionUser (userId : Text) (grantSiteIds : List Text) : GrantThread :=
  exec .read fun t =>
    let current := t.rows.filter fun r => r.userId = userId && r.status = .ACTIVE && r.directoryManaged
    let plan := planGrantChanges (current.map GrantRow.siteId) grantSiteIds
    createAll userId (if plan.2 = [] then .done else finish (.directoryRevoke userId plan.2)) plan.1

/-- `deprovisionUser`, as far as it is about grants. -/
def deprovisionUser (userId : Text) : GrantThread := finish (.deprovision userId)

inductive GrantRequest where
  | adminCreate (body : GrantBody) (adminId : Text) (instead : Option (Option ℤ))
  | requestAccess (body : GrantBody) (instead : Option (Option ℤ))
  | decide (id : ℕ) (approve : Bool) (adminId : Text) (reason : Option Text)
  | revoke (id : ℕ)
  | edit (id : ℕ) (endsAt : Option (Option ℤ)) (note : Option (Option Text)) (instead : Option (Option ℤ))
  | withdraw (id : ℕ) (userId : Text)
  | provision (userId : Text) (grantSiteIds : List Text)
  | deprovision (userId : Text)
  | wait (ms : ℕ)

def GrantRequest.thread (intl : Intl) : GrantRequest → GrantThread
  | .adminCreate body adminId instead => Access.adminCreate body adminId instead
  | .requestAccess body instead => Access.requestAccess intl body instead
  | .decide id approve adminId reason => decideGrant id approve adminId reason
  | .revoke id => revokeGrant id
  | .edit id endsAt note instead => editGrant id endsAt note instead
  | .withdraw id userId => Access.withdraw id userId
  | .provision userId grantSiteIds => provisionUser userId grantSiteIds
  | .deprovision userId => deprovisionUser userId
  | .wait ms => finish (.wait ms)

def grantPool (intl : Intl) (t : GrantTable) (requests : ℕ → GrantRequest) : Pool GrantTable GrantStmt :=
  ⟨t, fun i => (requests i).thread intl⟩

def noGrants (now : ℤ) (maxGrantDays : Option ℤ) : GrantTable := ⟨[], 0, now, maxGrantDays, []⟩

end Captivo.Access
