import CaptivoAccess.Spec.TenantTx

/-! Enrolment of connectors and users: `redeemPairing` (`lib/connector/enrollment.ts`)
and the invite mode of `POST /api/auth/registration/verify`. Rows carry their tenant;
in a tenant's scope only its own rows are seen. Times are in milliseconds; argon2, fresh
ids and tokens and what counts as white space are parameters. -/

namespace Captivo.Enroll

open Lib.Txn Captivo.TenantTx

inductive ConnectorStatus where
  | PENDING
  | ONLINE
  | OFFLINE
  | REVOKED
  deriving DecidableEq

inductive Role where
  | ADMIN
  | OPERATOR
  | AUDITOR
  | STAFF
  | VENDOR
  | PLATFORM
  deriving DecidableEq

structure ConnectorPairing where
  id : String
  tenantId : String
  codeHash : String
  name : String
  connectorId : Option String
  expiresAt : ℤ
  usedAt : Option ℤ
  deriving DecidableEq

structure Connector where
  id : String
  tenantId : String
  name : String
  tokenHash : String
  status : ConnectorStatus
  version : Option String
  deriving DecidableEq

/-- A user as it is enrolled: its status is `ACTIVE`. -/
structure User where
  id : String
  tenantId : String
  email : String
  name : String
  role : Role
  phone : Option String
  company : Option String
  deriving DecidableEq

structure Credential where
  id : String
  publicKey : List UInt8
  counter : ℕ
  transports : List String
  deriving DecidableEq

structure Passkey where
  userId : String
  tenantId : String
  credential : Credential
  label : String
  deriving DecidableEq

structure Invite where
  id : String
  tenantId : String
  email : String
  name : String
  role : Role
  phone : Option String
  company : Option String
  tokenHash : String
  expiresAt : ℤ
  usedAt : Option ℤ
  deriving DecidableEq

structure Rows where
  pairings : List ConnectorPairing
  connectors : List Connector
  users : List User
  passkeys : List Passkey
  invites : List Invite
  deriving DecidableEq

/-- The tenant whose rows a statement sees; the owner of a self-hosted database sees all. -/
abbrev Scope := Option String

def sees (scope : Scope) (tenantId : String) : Bool := scope.all (· = tenantId)

def stamp (scope : Scope) : String := scope.getD "default"

inductive Write where
  | usePairing (scope : Scope) (id : String) (usedAt : ℤ)
  | rotateConnector (scope : Scope) (id tokenHash : String) (version : Option String)
  | createConnector (c : Connector)
  | createUser (u : User)
  | createPasskey (p : Passkey)
  | useInvite (scope : Scope) (id : String) (usedAt : ℤ)
  | rows (r : Rows)
  deriving DecidableEq

/-- `{ id, usedAt: null }`. -/
def unusedPairing (scope : Scope) (id : String) (p : ConnectorPairing) : Bool :=
  sees scope p.tenantId && p.id = id && p.usedAt.isNone

/-- `{ id, status: { not: "REVOKED" } }`. -/
def rotatable (scope : Scope) (id : String) (c : Connector) : Bool :=
  sees scope c.tenantId && c.id = id && c.status ≠ .REVOKED

def unusedInvite (scope : Scope) (id : String) (i : Invite) : Bool :=
  sees scope i.tenantId && i.id = id && i.usedAt.isNone

def updateWhere {α : Type} (sel : α → Bool) (f : α → α) (rows : List α) : List α :=
  rows.map fun row => if sel row then f row else row

def applyWrite (d : Rows) : Write → Rows
  | .usePairing scope id usedAt =>
    { d with pairings := updateWhere (unusedPairing scope id) (fun p => { p with usedAt := some usedAt }) d.pairings }
  | .rotateConnector scope id tokenHash version =>
    { d with
      connectors := updateWhere (rotatable scope id)
        (fun c => { c with tokenHash := tokenHash, status := .PENDING, version := version.or c.version }) d.connectors }
  | .createConnector c => { d with connectors := d.connectors ++ [c] }
  | .createUser u => { d with users := d.users ++ [u] }
  | .createPasskey p => { d with passkeys := d.passkeys ++ [p] }
  | .useInvite scope id usedAt =>
    { d with invites := updateWhere (unusedInvite scope id) (fun i => { i with usedAt := some usedAt }) d.invites }
  | .rows r => r

inductive Reply where
  | count (n : ℕ)
  | created (id : String)
  | pairing (p : Option ConnectorPairing)
  | pairings (ps : List ConnectorPairing)
  | invites (is : List Invite)

inductive Err where
  | PAIRING_ALREADY_USED
  | CONNECTOR_GONE
  | INVITE_ALREADY_USED
  | sql
  deriving DecidableEq

/-! Statements. An insert or update that would repeat a unique key fails. -/

abbrev Stmt := Rows → Option (List Write × Reply)

/-- `updateMany`: no row that matches is no write. -/
def updateMany (n : ℕ) (w : Write) : Option (List Write × Reply) := some (if n = 0 then [] else [w], .count n)

def usePairing (scope : Scope) (id : String) (now : ℤ) : Stmt := fun d =>
  updateMany (d.pairings.countP (unusedPairing scope id)) (.usePairing scope id now)

def rotateConnector (scope : Scope) (id tokenHash : String) (version : Option String) : Stmt := fun d =>
  let n := d.connectors.countP (rotatable scope id)
  if 0 < n && d.connectors.any (fun c => sees scope c.tenantId && c.tokenHash = tokenHash && c.id ≠ id) then none
  else updateMany n (.rotateConnector scope id tokenHash version)

def createConnector (c : Connector) : Stmt := fun d =>
  if d.connectors.any (fun c' => c'.id = c.id || (c'.tenantId = c.tenantId && c'.tokenHash = c.tokenHash)) then none
  else some ([.createConnector c], .created c.id)

def createUser (u : User) : Stmt := fun d =>
  if d.users.any (fun u' => u'.id = u.id || (u'.tenantId = u.tenantId && u'.email = u.email)) then none
  else some ([.createUser u], .created u.id)

def createPasskey (p : Passkey) : Stmt := fun d =>
  if d.passkeys.any (fun p' => p'.tenantId = p.tenantId && p'.credential.id = p.credential.id) then none
  else some ([.createPasskey p], .created p.credential.id)

def useInvite (scope : Scope) (id : String) (now : ℤ) : Stmt := fun d =>
  updateMany (d.invites.countP (unusedInvite scope id)) (.useInvite scope id now)

def findPairing (scope : Scope) (id : String) : Stmt := fun d =>
  some ([], .pairing (d.pairings.find? fun p => sees scope p.tenantId && p.id = id))

def findLivePairings (scope : Scope) (now : ℤ) : Stmt := fun d =>
  some ([], .pairings (d.pairings.filter fun p => sees scope p.tenantId && p.usedAt.isNone && now < p.expiresAt))

def findLiveInvites (scope : Scope) (now : ℤ) : Stmt := fun d =>
  some ([], .invites (d.invites.filter fun i => sees scope i.tenantId && i.usedAt.isNone && now < i.expiresAt))

/-! Pairing. -/

structure Env where
  verifyTokenHash : String → String → Bool
  trim : String → String
  isSpace : Char → Bool

structure PairMeta where
  name : Option String
  version : Option String

/-- What a call makes up: a token, its hash and an id for a new row, at a time. -/
structure Fresh where
  token : String
  tokenHash : String
  id : String
  now : ℤ

/-- A string that is there and not empty. -/
def truthy (s : Option String) : Option String := s.filter (· ≠ "")

def orElse (s : Option String) (t : String) : String := (truthy s).getD t

/-- A pairing for a connector rotates its token, one for none creates it. -/
def pairConnector (env : Env) (scope : Scope) (fresh : Fresh) (p : ConnectorPairing) (info : PairMeta) :
    Prog Rows Write Reply Err String :=
  match truthy p.connectorId with
  | some connectorId =>
    .stmt (rotateConnector scope connectorId fresh.tokenHash info.version) fun
      | some (.count n) => if n = 0 then .throw .CONNECTOR_GONE else .ret connectorId
      | _ => .throw .sql
  | none =>
    .stmt (createConnector {
      id := fresh.id, tenantId := stamp scope, name := orElse (info.name.map env.trim) p.name,
      tokenHash := fresh.tokenHash, status := .PENDING, version := info.version }) fun
      | some (.created id) => .ret id
      | _ => .throw .sql

def redeemCallback (env : Env) (scope : Scope) (fresh : Fresh) (p : ConnectorPairing) (info : PairMeta) :
    Prog Rows Write Reply Err String :=
  .stmt (usePairing scope p.id fresh.now) fun
    | some (.count n) => if n = 0 then .throw .PAIRING_ALREADY_USED else pairConnector env scope fresh p info
    | _ => .throw .sql

abbrev Redeemed := Option (String × String)

def finishRedeem (env : Env) (scope : Scope) (fresh : Fresh) (p : ConnectorPairing) (info : PairMeta) :
    Request Rows Write Reply Err String Redeemed :=
  .transaction (redeemCallback env scope fresh p info) fun
    | .ok connectorId => .ret (some (connectorId, fresh.token))
    | .error .PAIRING_ALREADY_USED => .ret none
    | .error .CONNECTOR_GONE => .ret none
    | .error e => .throw e

/-- The first pairing that is live and whose code this is, over all tenants. -/
def scanPairings (env : Env) (code : String) (now : ℤ) (d : Rows) : Option ConnectorPairing :=
  d.pairings.find? fun p => p.usedAt.isNone && now < p.expiresAt && env.verifyTokenHash code p.codeHash

def usedOrExpired (now : ℤ) (p : ConnectorPairing) : Bool := p.usedAt.isSome || p.expiresAt ≤ now

def redeemScoped (env : Env) (scope : Scope) (fresh : Fresh) (id : String) (info : PairMeta) :
    Request Rows Write Reply Err String Redeemed :=
  .stmt (findPairing scope id) fun
    | some (.pairing (some full)) =>
      if usedOrExpired fresh.now full then .ret none else finishRedeem env scope fresh full info
    | some (.pairing none) => .ret none
    | _ => .throw .sql

/-- `others` is what other requests have made of the tables since the scan. -/
def redeemPairing (env : Env) (multiTenant : Bool) (fresh : Fresh) (d others : Rows) (code : String)
    (info : PairMeta) : Journal Write × Except Err Redeemed :=
  if multiTenant then
    match scanPairings env code fresh.now d with
    | none => ([], .ok none)
    | some p =>
      runRequest applyWrite true d (.outside [.rows others] (redeemScoped env (some p.tenantId) fresh p.id info))
  else
    runRequest applyWrite false d <| .stmt (findLivePairings none fresh.now) fun
      | some (.pairings ps) =>
        match ps.find? fun p => env.verifyTokenHash code p.codeHash with
        | some p => .outside [.rows others] (finishRedeem env none fresh p info)
        | none => .ret none
      | _ => .throw .sql

/-! Registration by invite. -/

def collapse (isSpace : Char → Bool) : Bool → List Char → List Char
  | _, [] => []
  | inSpace, c :: cs =>
    if isSpace c then (if inSpace then collapse isSpace true cs else ' ' :: collapse isSpace true cs)
    else c :: collapse isSpace false cs

def DISPLAY_NAME_MAX : ℕ := 100

def jsLength (cs : List Char) : ℕ := (cs.map fun c => if c.toNat < 0x10000 then 1 else 2).sum

def normalizeDisplayName (isSpace : Char → Bool) (value : Option String) : Option String :=
  value.bind fun s =>
    let v := (((collapse isSpace false s.toList).dropWhile (· = ' ')).reverse.dropWhile (· = ' ')).reverse
    if v = [] ∨ DISPLAY_NAME_MAX < jsLength v then none else some (String.ofList v)

structure Response where
  status : ℕ
  error : Option String
  deriving DecidableEq

def ok : Response := ⟨200, none⟩

def refuse (status : ℕ) (error : String) : Response := ⟨status, some error⟩

/-- The request and what the checks on it say. A field that is not a string is `none`;
of the name it matters whether it is there at all. -/
structure InviteRequest where
  rateLimited : Bool
  inviteToken : Option String
  hasResponse : Bool
  label : Option String
  name : Option (Option String)
  hasChallenge : Bool
  originMatches : Bool
  verified : Option Credential
  uid : Option String

def enrollCallback (scope : Scope) (fresh : Fresh) (invite : Invite) (uid : Option String) (displayName : String)
    (credential : Credential) (label : String) : Prog Rows Write Reply Err String :=
  .stmt (createUser {
    id := orElse uid fresh.id, tenantId := stamp scope, email := invite.email, name := displayName,
    role := invite.role, phone := invite.phone, company := invite.company }) fun
    | some (.created userId) =>
      .stmt (createPasskey ⟨userId, stamp scope, credential, label⟩) fun
        | some (.created _) =>
          .stmt (useInvite scope invite.id fresh.now) fun
            | some (.count n) => if n = 0 then .throw .INVITE_ALREADY_USED else .ret userId
            | _ => .throw .sql
        | _ => .throw .sql
    | _ => .throw .sql

def verifyInvite (env : Env) (token : String) (is : List Invite) : Option Invite :=
  is.find? fun i => env.verifyTokenHash token i.tokenHash

/-- The part of the handler after the invite is found. The session that follows an enrolment is in other tables. -/
def enrollInvite (env : Env) (scope : Scope) (fresh : Fresh) (others : Rows) (req : InviteRequest) (invite : Invite) :
    Request Rows Write Reply Err String Response :=
  if req.name.isSome && (normalizeDisplayName env.isSpace req.name.join).isNone then .ret (refuse 400 "invalid_name")
  else if !req.hasChallenge then .ret (refuse 401 "challenge_expired")
  else if !req.originMatches then .ret (refuse 400 "origin_mismatch")
  else match req.verified with
    | none => .ret (refuse 401 "verification_failed")
    | some credential =>
      let displayName := (normalizeDisplayName env.isSpace req.name.join).getD invite.name
      .outside [.rows others] <|
        .transaction (enrollCallback scope fresh invite req.uid displayName credential
            (orElse (req.label.map env.trim) "Primary passkey")) fun
          | .ok _ => .ret ok
          | .error .INVITE_ALREADY_USED => .ret (refuse 410 "invite_invalid")
          | .error _ => .ret (refuse 409 "email_taken")

def inviteHandler (env : Env) (scope : Scope) (fresh : Fresh) (others : Rows) (req : InviteRequest) :
    Request Rows Write Reply Err String Response :=
  if req.rateLimited then .ret (refuse 429 "rate_limited")
  else match truthy req.inviteToken with
    | none => .ret (refuse 400 "invalid_body")
    | some token =>
      if !req.hasResponse then .ret (refuse 400 "invalid_body")
      else .stmt (findLiveInvites scope fresh.now) fun
        | some (.invites is) =>
          match verifyInvite env token is with
          | none => .ret (refuse 410 "invite_invalid")
          | some invite => enrollInvite env scope fresh others req invite
        | _ => .throw .sql

/-- `tenant` is the one that the request's host stands for. `others` is what other requests
have made of the tables since the invite was looked up. -/
def registerInvite (env : Env) (multiTenant : Bool) (tenant : String) (fresh : Fresh) (d others : Rows)
    (req : InviteRequest) : Journal Write × Except Err Response :=
  runRequest applyWrite multiTenant d
    (inviteHandler env (if multiTenant then some tenant else none) fresh others req)

end Captivo.Enroll
