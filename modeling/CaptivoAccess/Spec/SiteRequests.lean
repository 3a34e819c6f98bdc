import CaptivoAccess.Spec.GrantLife

/-! What a user is offered to ask for (`listSitesForRequest` in `lib/access/grants.ts`), next to
what the access decision reads of the same table (`lib/access/evaluate.ts`). -/

namespace Captivo.Access

open Lib.Dns

/-- The grants that `evaluateAccess` finds. -/
def grantsOn (t : GrantTable) (userId siteId : Text) : List Grant :=
  (t.rows.filter fun r => r.userId = userId && r.siteId = siteId).map GrantRow.toGrant

structure SiteName where
  id : Text
  name : Text
  deriving DecidableEq

def doneReasons : List Reason := [.revoked, .denied, .expired]

/-- `sites` are all there are, in the order of their names. -/
def listSitesForRequest (intl : Intl) (t : GrantTable) (sites : List SiteName) (userId : Text) : List SiteName :=
  let grants := t.rows.filter fun r => r.userId = userId
  let held := (grants.filter fun r => classifyGrant intl r.toGrant t.now ∉ doneReasons).map GrantRow.siteId
  sites.filter fun s => s.id ∉ held

end Captivo.Access
