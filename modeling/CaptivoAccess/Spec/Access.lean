import CaptivoAccess.Lib.Dns

/-! The access decision of the manager: the source-IP allowlist (`lib/net/cidr.ts`), the
weekly schedule of a grant (`lib/access/schedule.ts`) and the evaluation of a user's
grants on a site (`lib/access/evaluate.ts`). Node's `net`, `Intl` and `Number` are
parameters. Times are in milliseconds. -/

namespace Captivo.Access

open Lib.Dns

/-! The allowlist. -/

inductive Family where
  | ipv4
  | ipv6
  deriving DecidableEq

/-- Node's `net`, and the parts of the language that the list is read with. -/
structure Net where
  Rule : Type
  isIP : Text → Option Family
  /-- `addSubnet` and `addAddress`; none when they throw. -/
  subnet : Text → ℤ → Family → Option Rule
  address : Text → Family → Option Rule
  /-- A `BlockList` checks an address against each of its rules. -/
  covers : Rule → Text → Family → Bool
  /-- `Number(s)`, where that is an integer. -/
  toInteger : Text → Option ℤ
  /-- `\s`. -/
  isSpace : Char → Bool

/-- `raw.split(/[\s,]+/)` without the empty pieces; `word` is the piece being read. -/
def splitEntries (isSpace : Char → Bool) : Text → Text → List Text
  | word, [] => if word = [] then [] else [word]
  | word, c :: cs =>
    if isSpace c || c = ',' then
      (if word = [] then splitEntries isSpace [] cs else word :: splitEntries isSpace [] cs)
    else splitEntries isSpace (word ++ [c]) cs

def entriesOf (net : Net) (raw : Text) : List Text := splitEntries net.isSpace [] raw

/-- The rule of an entry, a CIDR or an address; none when it is malformed. -/
def addEntry (net : Net) (entry : Text) : Option net.Rule :=
  if '/' ∈ entry then
    let addr := entry.takeWhile (· ≠ '/')
    match net.isIP addr, net.toInteger ((entry.dropWhile (· ≠ '/')).tail) with
    | some fam, some bits => net.subnet addr bits fam
    | _, _ => none
  else (net.isIP entry).bind (net.address entry)

def validateAllowlist (net : Net) (raw : Text) : List Text :=
  (entriesOf net raw).filter fun e => (addEntry net e).isNone

/-- The compiled list; a list without a valid entry is no list. -/
def build (net : Net) (raw : Text) : Option (List net.Rule) :=
  let rules := (entriesOf net raw).filterMap (addEntry net)
  if rules = [] then none else some rules

/-- One to three digits. -/
def isOctet (s : Text) : Bool := s ≠ [] && s.length ≤ 3 && s.all Char.isDigit

/-- An IPv4-mapped IPv6 address as the IPv4 address it maps. -/
def normalizeIp (ip : Text) : Text :=
  let rest := ip.drop 7
  if (ip.take 7).map Char.toLower = "::ffff:".toList && (rest.splitOn '.').length = 4 && (rest.splitOn '.').all isOctet
  then rest else ip

def ipAllowed (net : Net) (raw ip : Text) : Bool :=
  match build net raw with
  | none => true
  | some rules =>
    match net.isIP (normalizeIp ip) with
    | none => false
    | some fam => rules.any fun r => net.covers r (normalizeIp ip) fam

/-! Schedules. -/

structure Schedule where
  timezone : Text
  days : List ℤ
  start : Text
  finish : Text
  deriving DecidableEq

/-- The stored JSON. A field that is missing or not of its type is `none`, and so is a
day that is not an integer. -/
inductive ScheduleJson where
  | notObject
  | object (timezone : Option Text) (days : Option (List (Option ℤ))) (start finish : Option Text)

/-- `/^([01]\d|2[0-3]):([0-5]\d)$/`, in minutes. -/
def timeToMinutes (t : Text) : Option ℕ :=
  match t with
  | [h1, h0, ':', m1, m0] =>
    if [h1, h0, m1, m0].all Char.isDigit then
      let h := (h1.toNat - 48) * 10 + (h0.toNat - 48)
      let m := (m1.toNat - 48) * 10 + (m0.toNat - 48)
      if h < 24 && m < 60 then some (h * 60 + m) else none
    else none
  | _ => none

/-- `Intl`: which time zones there are, and the weekday and minutes of a time in one. The
weekday is none when its name is not known. -/
structure Intl where
  isValidTimeZone : Text → Bool
  clock : Text → ℤ → Option ℤ × ℕ

inductive ScheduleError where
  | not_object
  | bad_timezone
  | bad_days
  | bad_time
  | start_after_end
  deriving DecidableEq

def collectDays : List ℤ → List (Option ℤ) → Option (List ℤ)
  | days, [] => some days
  | _, none :: _ => none
  | days, some d :: ds =>
    if d < 0 || 6 < d then none else collectDays (if d ∈ days then days else days ++ [d]) ds

def validateSchedule (intl : Intl) : ScheduleJson → Except ScheduleError Schedule
  | .notObject => .error .not_object
  | .object timezone days start finish =>
    match timezone.filter intl.isValidTimeZone with
    | none => .error .bad_timezone
    | some tz =>
      match (days.filter (· ≠ [])).bind (collectDays []) with
      | none => .error .bad_days
      | some ds =>
        match start, finish with
        | some s, some e =>
          match timeToMinutes s, timeToMinutes e with
          | some sm, some em =>
            if em ≤ sm then .error .start_after_end else .ok ⟨tz, ds.insertionSort (· ≤ ·), s, e⟩
          | _, _ => .error .bad_time
        | _, _ => .error .bad_time

def parseSchedule (intl : Intl) (value : ScheduleJson) : Option Schedule := (validateSchedule intl value).toOption

def isWithinSchedule (intl : Intl) (schedule : Schedule) (now : ℤ) : Bool :=
  match intl.clock schedule.timezone now with
  | (none, _) => false
  | (some weekday, nowMin) =>
    if weekday ∈ schedule.days then
      match timeToMinutes schedule.start, timeToMinutes schedule.finish with
      | some s, some e => s ≤ nowMin && nowMin ≤ e
      | _, _ => false
    else false

/-! Grants. -/

inductive Reason where
  | allow
  | user_disabled
  | no_grant
  | revoked
  | denied
  | not_yet
  | off_schedule
  | expired
  | pending_approval
  deriving DecidableEq

inductive GrantStatus where
  | ACTIVE
  | REVOKED
  | DENIED
  deriving DecidableEq

structure Grant where
  status : GrantStatus
  startsAt : Option ℤ
  endsAt : Option ℤ
  requiresApproval : Bool
  approvedAt : Option ℤ
  schedule : Option ScheduleJson

structure Decision where
  allow : Bool
  reason : Reason
  deriving DecidableEq

def DENY_PRIORITY : Reason → ℕ
  | .pending_approval => 5
  | .not_yet => 4
  | .off_schedule => 3
  | .expired => 2
  | _ => 1

def classifyGrant (intl : Intl) (g : Grant) (now : ℤ) : Reason :=
  if g.status = .REVOKED then .revoked
  else if g.status = .DENIED then .denied
  else if g.startsAt.any (now < ·) then .not_yet
  else if g.endsAt.any (· < now) then .expired
  else if g.requiresApproval && g.approvedAt.isNone then .pending_approval
  else match g.schedule with
    | none => .allow
    | some value =>
      -- a schedule that cannot be read denies
      match parseSchedule intl value with
      | none => .off_schedule
      | some s => if isWithinSchedule intl s now then .allow else .off_schedule

/-- The loop over the grants; `best` is the best reason to deny so far. -/
def bestDecision (intl : Intl) (now : ℤ) : Option Reason → List Grant → Decision
  | best, [] => ⟨false, best.getD .no_grant⟩
  | best, g :: gs =>
    let d := classifyGrant intl g now
    if d = .allow then ⟨true, .allow⟩
    else bestDecision intl now
      (if best.all fun b => DENY_PRIORITY b < DENY_PRIORITY d then some d else best) gs

/-- `active` is none when the user is not found. -/
def evaluateAccess (intl : Intl) (now : ℤ) (active : Option Bool) (grants : List Grant) : Decision :=
  if active = some true then bestDecision intl now none grants else ⟨false, .user_disabled⟩

end Captivo.Access
