import Mathlib.Tactic

/-! The session policy of a tenant and the process-wide cache in front of it
(`lib/policy/session-policy.ts`), with the decisions taken from it at sign-in and
on every request (`lib/auth/session.ts`, `lib/auth/amr.ts`). The process serves the
requests of all tenants, interleaved at every `await`. Times are in milliseconds. -/

namespace Captivo.Policy

structure SessionPolicy where
  idleTimeoutMinutes : Option ℤ
  maxSessionHours : Option ℤ
  maxConcurrentPerUser : Option ℤ
  requireSecondFactor : Bool
  deriving DecidableEq

/-- No enforcement: the policy of a tenant that has none. -/
def EMPTY : SessionPolicy := ⟨none, none, none, false⟩

def sessionTtlMs (policyHours : Option ℤ) (envHours : ℚ) : ℚ :=
  (match policyHours with
    | some h => if 0 < h then (h : ℚ) else envHours
    | none => envHours) * 3600000

def idleExpired (lastSeen now : ℤ) (idleMinutes : Option ℤ) : Bool :=
  match idleMinutes with
  | some m => 0 < m && m * 60000 < now - lastSeen
  | none => false

/-- The oldest sessions that have to go so that the new one fits. -/
def evictionIds (activeOldestFirst : List String) (cap : Option ℤ) : List String :=
  match cap with
  | some c => if c ≤ 0 then [] else activeOldestFirst.take (activeOldestFirst.length - (c - 1)).toNat
  | none => []

def hasSecondFactor (amr : List String) : Bool :=
  amr.any fun m => m ∈ ["otp", "mfa", "hwk", "swk", "sc", "fido"]

inductive SecondFactorGate where
  | allow
  | stepUp
  | refuse
  deriving DecidableEq

def secondFactorGate (required : Bool) (amr : List String) (steppedUp : Bool) : SecondFactorGate :=
  if !required then .allow
  else if hasSecondFactor amr then .allow
  else if steppedUp then .refuse else .stepUp

/-- What a caller of `getSessionPolicy` wants it for. -/
inductive Purpose where
  | createSession (envHours : ℚ) (activeOldestFirst : List String)
  | getSessionUser (lastSeen : ℤ)
  | signIn (amr : List String) (steppedUp : Bool)
  deriving DecidableEq

inductive Decision where
  | createSession (ttlMs : ℚ) (evicted : List String)
  | getSessionUser (idle : Bool)
  | signIn (gate : SecondFactorGate)
  deriving DecidableEq

def applied (now : ℕ) (policy : SessionPolicy) : Purpose → Decision
  | .createSession envHours active =>
    .createSession (sessionTtlMs policy.maxSessionHours envHours) (evictionIds active policy.maxConcurrentPerUser)
  | .getSessionUser lastSeen => .getSessionUser (idleExpired lastSeen now policy.idleTimeoutMinutes)
  | .signIn amr steppedUp => .signIn (secondFactorGate policy.requireSecondFactor amr steppedUp)

/-- The one slot of the cache. Which tenant's call filled it is not in the code; it is kept
here to speak about. -/
structure Cache where
  policy : SessionPolicy
  filledAt : ℕ
  filledBy : String
  deriving DecidableEq

/-- A `getSessionPolicy` call past the cache: under which tenant, and the row once it is read. -/
structure Call where
  tenant : String
  purpose : Purpose
  row : Option (Option SessionPolicy)
  deriving DecidableEq

/-- A `getSessionPolicy` call that came back. -/
structure Answer where
  tenant : String
  policy : SessionPolicy
  time : ℕ
  decision : Decision
  deriving DecidableEq

/-- A policy a tenant no longer has: stored from `since` until `upto`. -/
structure Past where
  tenant : String
  policy : SessionPolicy
  since : ℕ
  upto : ℕ
  deriving DecidableEq

structure Proc where
  now : ℕ
  rows : String → Option SessionPolicy
  since : String → ℕ
  past : List Past
  cache : Option Cache
  calls : ℕ → Option Call
  answers : List Answer

def Proc.init (rows : String → Option SessionPolicy) : Proc :=
  { now := 0, rows, since := fun _ => 0, past := [], cache := none, calls := fun _ => none, answers := [] }

/-- The policy a row stands for; `c?.field ?? default` on every field. -/
def policyOf (row : Option SessionPolicy) : SessionPolicy := row.getD EMPTY

/-- What can happen next in the process. A save is the commit of its row and, on its own, the
`cache = null` that follows the upsert: in a tenant scope the commit comes at the end of the
request, in self-host mode before it. -/
inductive Event where
  | tick (ms : ℕ)
  | call (id : ℕ) (tenant : String) (purpose : Purpose)
  | read (id : ℕ)
  | readFails (id : ℕ)
  | fill (id : ℕ)
  | commit (tenant : String) (policy : SessionPolicy)
  | invalidate

def ttlMs : ℕ := 30000

def Proc.hit (s : Proc) : Option Cache := s.cache.filter fun c => s.now < c.filledAt + ttlMs

def Proc.answer (s : Proc) (tenant : String) (purpose : Purpose) (policy : SessionPolicy) : Proc :=
  { s with answers := s.answers ++ [⟨tenant, policy, s.now, applied s.now policy purpose⟩] }

def step (s : Proc) : Event → Proc
  | .tick ms => { s with now := s.now + ms }
  | .call id tenant purpose =>
    match s.hit with
    | some c => s.answer tenant purpose c.policy
    | none => { s with calls := Function.update s.calls id (some ⟨tenant, purpose, none⟩) }
  | .read id =>
    match s.calls id with
    | some ⟨tenant, purpose, none⟩ =>
      { s with calls := Function.update s.calls id (some ⟨tenant, purpose, some (s.rows tenant)⟩) }
    | _ => s
  | .readFails id =>
    match s.calls id with
    | some ⟨tenant, purpose, none⟩ =>
      { s with calls := Function.update s.calls id none }.answer tenant purpose EMPTY
    | _ => s
  | .fill id =>
    match s.calls id with
    | some ⟨tenant, purpose, some row⟩ =>
      { s with
        calls := Function.update s.calls id none
        cache := some ⟨policyOf row, s.now, tenant⟩ }.answer tenant purpose (policyOf row)
    | _ => s
  | .commit tenant policy =>
    { s with
      rows := Function.update s.rows tenant (some policy)
      since := Function.update s.since tenant s.now
      past := ⟨tenant, policyOf (s.rows tenant), s.since tenant, s.now⟩ :: s.past }
  | .invalidate => { s with cache := none }

/-- `policy` was the tenant's at the time. -/
def Proc.StoredAt (s : Proc) (tenant : String) (policy : SessionPolicy) (time : ℕ) : Prop :=
  (policyOf (s.rows tenant) = policy ∧ s.since tenant ≤ time) ∨
    ∃ p ∈ s.past, p.tenant = tenant ∧ p.policy = policy ∧ p.since ≤ time ∧ time ≤ p.upto

/-- The decisions taken for the users of a tenant, in order. -/
def Proc.decisions (s : Proc) (tenant : String) : List Decision :=
  (s.answers.filter (·.tenant = tenant)).map (·.decision)

end Captivo.Policy
