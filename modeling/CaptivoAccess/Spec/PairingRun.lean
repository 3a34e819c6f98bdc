import CaptivoAccess.Lib.ReadCommitted
import CaptivoAccess.Spec.Enrollment

/-! Calls of `redeemPairing` that run at once (`lib/connector/enrollment.ts`). The scan is a
statement by itself. Self-hosted, the consumption of the pairing and the connector's new
token are a transaction; in multi-tenant mode that is the one of `withTenant`, in which
the pairing is found again first, and which commits where an error is caught. -/

namespace Captivo.Enroll

open Lib.Txn Lib.ReadCommitted

/-- A call with its three readings of the clock: at the scan, when the pairing is found again, and (with what is made up) when it is
consumed. -/
structure RedeemCall where
  code : String
  info : PairMeta
  scanAt : ℤ
  recheckAt : ℤ
  fresh : Fresh

/-- A program with what comes after it, whether it returns or throws. -/
def attempt {D W R E A B : Type} (ret : A → Prog D W R E B) (thrown : E → Prog D W R E B) : Prog D W R E A → Prog D W R E B
  | .ret a => ret a
  | .throw e => thrown e
  | .stmt s k => .stmt s fun r => attempt ret thrown (k r)

/-- `finishRedeem` in a transaction. Self-hosted, it is over when an error is caught; in the one of `withTenant` the call goes on and
returns null. -/
def finishRedeemIn (env : Env) (multiTenant : Bool) (scope : Scope) (fresh : Fresh) (p : ConnectorPairing) (info : PairMeta) :
    Prog Rows Write Reply Err Redeemed :=
  attempt (fun connectorId => .ret (some (connectorId, fresh.token)))
    (fun e => if multiTenant ∧ (e = .PAIRING_ALREADY_USED ∨ e = .CONNECTOR_GONE) then .ret none else .throw e)
    (redeemCallback env scope fresh p info)

def redeemTx (env : Env) (multiTenant : Bool) (c : RedeemCall) (p : ConnectorPairing) : Prog Rows Write Reply Err Redeemed :=
  if multiTenant then
    .stmt (findPairing (some p.tenantId) p.id) fun
      | some (.pairing (some full)) =>
        if usedOrExpired c.recheckAt full then .ret none else finishRedeemIn env true (some p.tenantId) c.fresh full c.info
      | some (.pairing none) => .ret none
      | _ => .throw .sql
  else finishRedeemIn env false none c.fresh p c.info

def redeemCall (env : Env) (multiTenant : Bool) (c : RedeemCall) : Call Rows Write Reply Err Redeemed :=
  .read fun d =>
    match scanPairings env c.code c.scanAt d with
    | none => .done
    | some p => .tx false (redeemTx env multiTenant c p)

/-- Two writes of one row, of which the second waits for the first. -/
def sameRow : Write → Write → Bool
  | .usePairing _ id _, .usePairing _ id' _ => id = id'
  | .rotateConnector _ id _ _, .rotateConnector _ id' _ _ => id = id'
  | .rotateConnector _ id _ _, .createConnector c => id = c.id
  | .createConnector c, .rotateConnector _ id _ _ => c.id = id
  | .createConnector c, .createConnector c' => c.id = c'.id
  | _, _ => false

abbrev PairingServer := Server Rows Write Reply Err Redeemed

def redeeming (env : Env) (multiTenant : Bool) (d : Rows) (calls : ℕ → RedeemCall) (events : List Event) : PairingServer :=
  (start d fun i => redeemCall env multiTenant (calls i)).run applyWrite sameRow events

/-- A token that was issued: by which call, for which pairing, and to which connector. -/
structure Issue where
  call : ℕ
  pairing : Option String
  connectorId : String
  token : String
  deriving DecidableEq

def pairingOf : Write → Option String
  | .usePairing _ id _ => some id
  | _ => none

def issueOf (c : Commit Write Redeemed) : Option Issue :=
  c.value.map fun x => ⟨c.call, c.writes.findSome? pairingOf, x.1, x.2⟩

/-- The tokens that were issued, in the order in which that took effect. -/
def issued (s : PairingServer) : List Issue := s.log.filterMap issueOf

def lastIssued (s : PairingServer) (connectorId : String) : Option Issue := (issued s).reverse.find? fun x => x.connectorId = connectorId

end Captivo.Enroll
