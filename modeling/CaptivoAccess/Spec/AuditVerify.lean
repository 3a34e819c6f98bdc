import CaptivoAccess.Spec.AdminAudit
import CaptivoAccess.Spec.AuditRetention

/-! `GET /api/admin/audit/verify`: the head is read, then the rows page by page, each in a
statement of its own, while events are appended and the retention cron runs. -/

namespace Captivo.Audit

open Lib.JsonText Lib.HashChain

def PAGE : ℕ := 1000

/-- The `where` of a page: behind the cursor, and up to the head that was read. -/
def wanted (head : Option ChainHead) (cursorSeq : Option ℕ) (r : AuditRow) : Bool :=
  head.all (fun h => r.seq ≤ h.lastSeq) && cursorSeq.all fun c => c < r.seq

def findPage (db : TenantDb) (head : Option ChainHead) (cursorSeq : Option ℕ) : List AuditRow :=
  ((db.rows.filter (wanted head cursorSeq)).insertionSort fun r r' => r.seq ≤ r'.seq).take PAGE

structure Paging where
  head : Option ChainHead
  events : List AuditRow
  cursorSeq : Option ℕ

/-- Where a request stands. Its caller is signed in or not, and may read the console or not. -/
inductive VerifyRoute where
  | started (readConsole : Option Bool)
  | paging (p : Paging)
  | answered (response : VerifyResponse)

section Route

variable (sha256 : Units → Units) (toISOString : ℤ → Units)

def Paging.verdict (p : Paging) : VerifyRoute :=
  .answered (.verified (verifyChain sha256 toISOString (p.events.map AuditRow.stored) p.head))

/-- The request up to its next statement, with what that statement reads. -/
def VerifyRoute.statement (db : TenantDb) : VerifyRoute → VerifyRoute
  | .started none => .answered .unauthorized
  | .started (some false) => .answered .forbidden
  | .started (some true) => .paging ⟨db.head, [], none⟩
  | .paging p =>
    let batch := findPage db p.head p.cursorSeq
    match batch.getLast? with
    | none => p.verdict sha256 toISOString
    | some last =>
      let p := { p with events := p.events ++ batch, cursorSeq := some last.seq }
      if batch.length < PAGE then p.verdict sha256 toISOString else .paging p
  | .answered response => .answered response

structure VerifyWorld where
  db : TenantDb
  route : VerifyRoute

inductive VerifyEvent where
  | chain (s : ChainStep)
  | statement

def verifyStep (w : VerifyWorld) : VerifyEvent → VerifyWorld
  | .chain s => { w with db := chainStep sha256 toISOString w.db s }
  | .statement => { w with route := w.route.statement sha256 toISOString w.db }

def verifyStart (readConsole : Option Bool) : VerifyWorld := ⟨emptyChain, .started readConsole⟩

def verifyRun (readConsole : Option Bool) (events : List VerifyEvent) : VerifyWorld :=
  events.foldl (verifyStep sha256 toISOString) (verifyStart readConsole)

end Route

end Captivo.Audit
