import CaptivoAccess.Spec.AuditLog

/-! What shortens a chain and what is checked of it from outside: the retention cron
(`cron/audit-retention/route.ts`), and the anchors of a chain head with a timestamp
authority (`lib/audit/anchor-verify.ts`, `audit/anchors/verify/route.ts`). A timestamp
token and its check are parameters. -/

namespace Captivo.Audit

open Lib.JsonText Lib.HashChain

/-- One tenant's turn of the cron, with the number of rows deleted. The last row older than
the cutoff takes everything below it along, whatever its time. -/
def auditRetention (db : TenantDb) (now : ℤ) (retentionDays : ℕ) : TenantDb × ℕ :=
  let cutoff := now - retentionDays * 24 * 60 * 60 * 1000
  match ((db.rows.filter fun r => r.timestamp < cutoff).map AuditRow.seq).max? with
  | none => (db, 0)
  | some cutoffSeq =>
    ({ db with rows := db.rows.filter fun r => cutoffSeq < r.seq }, (db.rows.filter fun r => r.seq ≤ cutoffSeq).length)

/-- What happens to a chain: an append, which reads the names as they are at the time, or the cron. -/
inductive ChainStep where
  | append (users : Units → Option UserNames) (sites : Units → Option Units) (now : ℤ) (events : List AuditInput)
  | retention (now : ℤ) (retentionDays : ℕ)

def ChainStep.isAppend : ChainStep → Bool
  | .append .. => true
  | .retention .. => false

/-- An append that throws leaves the chain as it was. -/
def chainStep (sha256 : Units → Units) (toISOString : ℤ → Units) (db : TenantDb) : ChainStep → TenantDb
  | .append users sites now events =>
    let db := { db with users := users, sites := sites }
    ((appendAuditEvents sha256 toISOString db now events).map Prod.fst).getD db
  | .retention now retentionDays => (auditRetention db now retentionDays).1

/-- No event was ever appended. -/
def emptyChain : TenantDb := ⟨fun _ => none, fun _ => none, none, []⟩

def runChain (sha256 : Units → Units) (toISOString : ℤ → Units) (steps : List ChainStep) : TenantDb :=
  steps.foldl (chainStep sha256 toISOString) emptyChain

/-! Anchors. -/

structure AnchorInput where
  id : Units
  anchoredSeq : ℕ
  anchoredHash : Units
  token : List UInt8
  genTime : ℤ

structure AnchorVerdict where
  id : Units
  anchoredSeq : Units
  genTime : Units
  ok : Bool
  beyondRetention : Bool
  reason : Option Units
  deriving DecidableEq

structure TokenVerdict where
  ok : Bool
  genTime : Option ℤ
  reason : Option Units

def anchorPreimage (anchoredSeq : ℕ) (anchoredHash : Units) : Units := bigintText anchoredSeq ++ 58 :: anchoredHash

structure VerifyDeps where
  tokenCheck : List UInt8 → Units → TokenVerdict
  toISOString : ℤ → Units

def VerifyDeps.check (deps : VerifyDeps) (a : AnchorInput) : TokenVerdict :=
  deps.tokenCheck a.token (anchorPreimage a.anchoredSeq a.anchoredHash)

def verifyOneAnchor (deps : VerifyDeps) (anchor : AnchorInput) (chainHashAtSeq : Option Units) : AnchorVerdict :=
  let tv := deps.check anchor
  let verdict (ok beyondRetention : Bool) (reason : Option Units) : AnchorVerdict :=
    ⟨anchor.id, bigintText anchor.anchoredSeq, deps.toISOString (tv.genTime.getD anchor.genTime), ok, beyondRetention,
      reason⟩
  if tv.ok = false then verdict false false (some (units "token_" ++ tv.reason.getD (units "invalid")))
  else match chainHashAtSeq with
    | none => verdict true true none
    | some hash =>
      if hash ≠ anchor.anchoredHash then verdict false false (some (units "chain_mismatch"))
      else verdict true false none

structure AnchorReport where
  total : ℕ
  ok : ℕ
  failed : ℕ
  verdicts : List AnchorVerdict

section Route

variable {R : Type} (seq : R → ℕ) (hash : R → Units) (deps : VerifyDeps) (rows : List R)

def anchorVerdict (a : AnchorInput) : AnchorVerdict :=
  verifyOneAnchor deps a ((rows.find? fun r => seq r = a.anchoredSeq).map hash)

/-- The answer of the verify route: the same over the access chain and the admin chain. -/
def anchorsVerify (anchors : List AnchorInput) : AnchorReport :=
  let verdicts := (anchors.insertionSort fun a b => a.anchoredSeq ≤ b.anchoredSeq).map (anchorVerdict seq hash deps rows)
  let okCount := (verdicts.filter AnchorVerdict.ok).length
  ⟨verdicts.length, okCount, verdicts.length - okCount, verdicts⟩

end Route

end Captivo.Audit
