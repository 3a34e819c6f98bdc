import CaptivoAccess.Lib.Txn

/-! How `db` runs a request (`lib/db.ts`, `lib/tenant/scope.ts`). Self-hosted, every
statement commits by itself and `db.$transaction` opens a transaction of its own. In
multi-tenant mode the whole request is one transaction, opened by `withTenant`, and
`db.$transaction` runs its callback in that one. -/

namespace Captivo.TenantTx

open Lib.Txn

/-- A request handler. At `outside` the writes of other requests become visible; the
caller of a transaction gets what its callback returned or threw. -/
inductive Request (D W R E A B : Type) where
  | ret (b : B)
  | throw (e : E)
  | stmt (s : D → Option (List W × R)) (k : Option R → Request D W R E A B)
  | outside (ws : List W) (k : Request D W R E A B)
  | transaction (callback : Prog D W R E A) (k : Except E A → Request D W R E A B)

/-- Who made a write: the handler, a callback that returned, one that threw, or another request. -/
inductive Origin where
  | handler
  | returned
  | threw
  | others
  deriving DecidableEq

def originOf {E A : Type} : Except E A → Origin
  | .ok _ => .returned
  | .error _ => .threw

abbrev Journal (W : Type) := List (Origin × W)

def journal {W : Type} (o : Origin) (ws : List W) : Journal W := ws.map fun w => (o, w)

/-- A request that has run: what it answered, and the writes so far. -/
structure Trace (W E B : Type) where
  aborted : Bool
  journal : Journal W
  value : Except E B

def Trace.after {W E B : Type} (j : Journal W) (t : Trace W E B) : Trace W E B :=
  { t with journal := j ++ t.journal }

section Run

variable {D W R E A B : Type} (apply : D → W → D)

/-- A request inside of `withTenant`. The callback of `db.$transaction` runs on the
ambient transaction, and nothing is undone when it throws. -/
def runAmbient : D → Bool → Request D W R E A B → Trace W E B
  | _, aborted, .ret b => ⟨aborted, [], .ok b⟩
  | _, aborted, .throw e => ⟨aborted, [], .error e⟩
  | d, aborted, .stmt s k =>
    match answer d aborted s with
    | none => runAmbient d true (k none)
    | some (ws, r) => (runAmbient (ws.foldl apply d) aborted (k (some r))).after (journal .handler ws)
  | d, aborted, .outside ws k => (runAmbient (ws.foldl apply d) aborted k).after (journal .others ws)
  | d, aborted, .transaction callback k =>
    let r := exec apply d aborted callback
    (runAmbient r.db r.aborted (k r.value)).after (journal (originOf r.value) r.writes)

/-- What is in the database in the end: a request that throws, or whose transaction is
aborted, is rolled back; other requests' writes are theirs. -/
def withTenant (d : D) (req : Request D W R E A B) : Journal W × Except E B :=
  let t := runAmbient apply d false req
  match t.value with
  | .ok b => (if t.aborted then t.journal.filter (·.1 = .others) else t.journal, .ok b)
  | .error e => (t.journal.filter (·.1 = .others), .error e)

/-- The transaction of a callback that returns commits, unless it was aborted. -/
def selfHostTransaction (d : D) (callback : Prog D W R E A) : D × Journal W × Except E A :=
  let r := exec apply d false callback
  match r.value with
  | .ok a => if r.aborted then (d, [], .ok a) else (r.db, journal .returned r.writes, .ok a)
  | .error e => (d, [], .error e)

/-- The same request self-hosted. -/
def selfHost : D → Request D W R E A B → Journal W × Except E B
  | _, .ret b => ([], .ok b)
  | _, .throw e => ([], .error e)
  | d, .stmt s k =>
    match s d with
    | none => selfHost d (k none)
    | some (ws, r) =>
      let (j, v) := selfHost (ws.foldl apply d) (k (some r))
      (journal .handler ws ++ j, v)
  | d, .outside ws k =>
    let (j, v) := selfHost (ws.foldl apply d) k
    (journal .others ws ++ j, v)
  | d, .transaction callback k =>
    let (d', j', x) := selfHostTransaction apply d callback
    let (j, v) := selfHost d' (k x)
    (j' ++ j, v)

/-- `multiTenantEnabled()` decides between the two. -/
def runRequest (multiTenant : Bool) (d : D) (req : Request D W R E A B) : Journal W × Except E B :=
  if multiTenant then withTenant apply d req else selfHost apply d req

def commit (d : D) (j : Journal W) : D := (j.map Prod.snd).foldl apply d

/-- The callbacks that the request starts, each with the database it starts on. -/
def callbacks : D → Bool → Request D W R E A B → List (D × Prog D W R E A)
  | _, _, .ret _ => []
  | _, _, .throw _ => []
  | d, aborted, .stmt s k =>
    match answer d aborted s with
    | none => callbacks d true (k none)
    | some (ws, r) => callbacks (ws.foldl apply d) aborted (k (some r))
  | d, aborted, .outside ws k => callbacks (ws.foldl apply d) aborted k
  | d, aborted, .transaction callback k =>
    let r := exec apply d aborted callback
    (d, callback) :: callbacks r.db r.aborted (k r.value)

end Run

end Captivo.TenantTx
