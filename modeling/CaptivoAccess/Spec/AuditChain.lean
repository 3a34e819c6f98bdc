import CaptivoAccess.Lib.HashChain
import CaptivoAccess.Lib.JsValue

/-! The two tamper-evident audit chains of a tenant, over proxied requests
(`lib/audit/chain.ts`, `lib/audit/verify.ts`) and over admin actions
(`lib/audit/admin-chain.ts`). Texts are JavaScript strings, times are milliseconds;
SHA-256 and `toISOString` are parameters. -/

namespace Captivo.Audit

open Lib.JsonText Lib.JsValue Lib.HashChain

abbrev ChainHead := Head Units

/-- A stored row: what it attests, with the hash before it and its own. -/
abbrev Stored (E : Type) := Link E Units

def GENESIS_PREV_HASH : Units := []

def genesis : ChainHead := ⟨0, GENESIS_PREV_HASH⟩

/-- `[...].join("\x1f")`. -/
def joinUS : List Units → Units
  | [] => []
  | [x] => x
  | x :: y :: xs => x ++ 31 :: joinUS (y :: xs)

def bigintText (n : ℕ) : Units := units (toString n)

inductive Decision where
  | ALLOW
  | DENY
  deriving DecidableEq

def Decision.text : Decision → Units
  | .ALLOW => units "ALLOW"
  | .DENY => units "DENY"

structure ChainableEvent where
  seq : ℕ
  timestamp : ℤ
  userId : Option Units
  siteId : Option Units
  host : Units
  method : Units
  path : Units
  status : ℤ
  bytesOut : ℕ
  decision : Decision
  reason : Option Units
  clientIp : Option Units
  userAgent : Option Units

mutual

/-- Keys sorted at every level, whatever order the column gives them back in. A date
is an object without keys. -/
def stableStringify : JsVal → Units
  | .undefined | .null | .nonFinite => units "null"
  | .bool b => units (if b then "true" else "false")
  | .num n => n.text
  | .str s => quote s
  | .date _ => [123, 125]
  | .arr xs => 91 :: joinUntil 93 (stableStringifyAll xs)
  | .obj fs => 123 :: joinUntil 125 ((sortByKey (stableStringifyFields fs)).map fun p => field p.1 p.2)

def stableStringifyAll : List JsVal → List Units
  | [] => []
  | x :: xs => stableStringify x :: stableStringifyAll xs

def stableStringifyFields : List (Units × JsVal) → List (Units × Units)
  | [] => []
  | (k, v) :: fs => (k, stableStringify v) :: stableStringifyFields fs

end

structure AdminChainable where
  seq : ℕ
  timestamp : ℤ
  actorId : Option Units
  actorEmail : Option Units
  action : Units
  targetType : Option Units
  targetId : Option Units
  summary : Units
  metadata : JsVal
  clientIp : Option Units

section Hash

variable (sha256 : Units → Units) (toISOString : ℤ → Units)

def chainText (prevHash canonical : Units) : Units := prevHash ++ 10 :: canonical

def chainHash (prevHash canonical : Units) : Units := sha256 (chainText prevHash canonical)

def canonicalize (e : ChainableEvent) : Units :=
  joinUS [bigintText e.seq, toISOString e.timestamp, e.userId.getD [], e.siteId.getD [], e.host, e.method, e.path,
    units (toString e.status), bigintText e.bytesOut, e.decision.text, e.reason.getD [], e.clientIp.getD [], e.userAgent.getD []]

def computeHash (prevHash : Units) (e : ChainableEvent) : Units :=
  chainHash sha256 prevHash (canonicalize toISOString e)

def canonicalizeAdmin (e : AdminChainable) : Units :=
  joinUS [bigintText e.seq, toISOString e.timestamp, e.actorId.getD [], e.actorEmail.getD [], e.action,
    e.targetType.getD [], e.targetId.getD [], e.summary, stableStringify e.metadata, e.clientIp.getD []]

def computeAdminHash (prevHash : Units) (e : AdminChainable) : Units :=
  chainHash sha256 prevHash (canonicalizeAdmin toISOString e)

end Hash

inductive Reason where
  | hash_mismatch
  | prev_hash_mismatch
  | head_mismatch
  deriving DecidableEq

structure ChainVerifyResult where
  ok : Bool
  count : ℕ
  firstSeq : Option Units
  lastSeq : Option Units
  retentionBoundary : Bool
  brokenAtSeq : Option Units
  reason : Option Reason
  deriving DecidableEq

section Verify

variable {E : Type} (seq : E → ℕ) (hash : Units → E → Units)

/-- The loop of both verifiers: the first break, where `prevHash` is the hash of the row before. -/
def findBreak : Option Units → List (Stored E) → Option (ℕ × Reason)
  | _, [] => none
  | prevHash, e :: es =>
    if hash e.prevHash e.event ≠ e.hash then some (seq e.event, .hash_mismatch)
    else if prevHash.any (e.prevHash ≠ ·) then some (seq e.event, .prev_hash_mismatch)
    else findBreak (some e.hash) es

/-- The last row is not the one the head names. -/
def headMismatch (last : Stored E) (expectedHead : Option ChainHead) : Bool :=
  expectedHead.any fun head => seq last.event ≠ head.lastSeq || last.hash ≠ head.lastHash

def verifyWith : List (Stored E) → Option ChainHead → ChainVerifyResult
  | [], _ => ⟨true, 0, none, none, false, none, none⟩
  | first :: rest, expectedHead =>
    let last := (first :: rest).getLast (List.cons_ne_nil first rest)
    let result (ok : Bool) (brokenAtSeq : Option ℕ) (reason : Option Reason) : ChainVerifyResult :=
      ⟨ok, (first :: rest).length, some (bigintText (seq first.event)), some (bigintText (seq last.event)),
        first.prevHash ≠ GENESIS_PREV_HASH, brokenAtSeq.map bigintText, reason⟩
    match findBreak seq hash none (first :: rest) with
    | some (brokenAt, reason) => result false (some brokenAt) (some reason)
    | none =>
      if headMismatch seq last expectedHead then result false (some (seq last.event)) (some .head_mismatch)
      else result true none none

end Verify

def verifyChain (sha256 : Units → Units) (toISOString : ℤ → Units) :
    List (Stored ChainableEvent) → Option ChainHead → ChainVerifyResult :=
  verifyWith ChainableEvent.seq (computeHash sha256 toISOString)

def verifyAdminChain (sha256 : Units → Units) (toISOString : ℤ → Units) :
    List (Stored AdminChainable) → Option ChainHead → ChainVerifyResult :=
  verifyWith AdminChainable.seq (computeAdminHash sha256 toISOString)

end Captivo.Audit
