import CaptivoAccess.Spec.AdminAudit

/-! The table of admin actions with the rows that are older than the chain:
`recordAdminAction` inserts a chained row, `backfillAdminChain`
(`lib/audit/admin-backfill.ts`) chains the rows that have no number yet. Both take the
advisory lock of the admin chain first, so they run one after another, and a failure
anywhere in one rolls it back. -/

namespace Captivo.Audit

open Lib.JsonText Lib.JsValue Lib.HashChain

structure ChainColumns where
  seq : ℕ
  prevHash : Units
  hash : Units

structure AdminRow where
  id : Units
  createdAt : ℤ
  timestamp : ℤ
  actorId : Option Units
  actorEmail : Option Units
  action : Units
  targetType : Option Units
  targetId : Option Units
  summary : Units
  metadata : Option JsVal
  clientIp : Option Units
  chain : Option ChainColumns

structure AdminTable where
  head : Option ChainHead
  rows : List AdminRow

def AdminRow.event (r : AdminRow) (c : ChainColumns) : AdminAuditEvent where
  seq := c.seq
  timestamp := r.timestamp
  actorId := r.actorId
  actorEmail := r.actorEmail
  action := r.action
  targetType := r.targetType
  targetId := r.targetId
  summary := r.summary
  metadata := r.metadata
  clientIp := r.clientIp
  prevHash := c.prevHash
  hash := c.hash

def AdminRow.chained (r : AdminRow) : Option AdminAuditEvent := r.chain.map r.event

def AdminTable.db (t : AdminTable) : AdminDb := ⟨t.head, t.rows.filterMap AdminRow.chained⟩

def AdminAuditEvent.inserted (e : AdminAuditEvent) (id : Units) (createdAt : ℤ) : AdminRow where
  id := id
  createdAt := createdAt
  timestamp := e.timestamp
  actorId := e.actorId
  actorEmail := e.actorEmail
  action := e.action
  targetType := e.targetType
  targetId := e.targetId
  summary := e.summary
  metadata := e.metadata
  clientIp := e.clientIp
  chain := some ⟨e.seq, e.prevHash, e.hash⟩

/-- `recordAdminAction` on the table; an id that is taken fails the insert. -/
def AdminTable.record (env : Env) (t : AdminTable) (id : Units) (createdAt : ℤ) (input : AdminInput) : AdminTable :=
  if env.accepts input && t.rows.all (·.id ≠ id) then
    let row := adminRow env (t.head.getD genesis) input
    ⟨some ⟨row.seq, row.hash⟩, t.rows ++ [row.inserted id createdAt]⟩
  else t

def AdminRow.chainable (r : AdminRow) (seq : ℕ) : AdminChainable where
  seq := seq
  timestamp := r.timestamp
  actorId := r.actorId
  actorEmail := r.actorEmail
  action := r.action
  targetType := r.targetType
  targetId := r.targetId
  summary := r.summary
  metadata := r.metadata.getD .null
  clientIp := r.clientIp

section Backfill

variable (env : Env) (collate : Units → Units → Bool)

/-- `orderBy: [{ createdAt: "asc" }, { id: "asc" }]`, in the collation of the database. -/
def createdBefore (r r' : AdminRow) : Bool :=
  r.createdAt < r'.createdAt || (r.createdAt = r'.createdAt && collate r.id r'.id)

def AdminTable.pending (t : AdminTable) : List AdminRow :=
  (t.rows.filter fun r => r.chain.isNone).mergeSort (createdBefore collate)

def AdminRow.setChain (id : Units) (c : ChainColumns) (r : AdminRow) : AdminRow :=
  if r.id = id then { r with chain := some c } else r

def AdminRow.nextChain (head : ChainHead) (r : AdminRow) : ChainColumns where
  seq := head.lastSeq + 1
  prevHash := head.lastHash
  hash := computeAdminHash env.sha256 env.toISOString head.lastHash (r.chainable (head.lastSeq + 1))

/-- One turn of the loop: the row is updated by its id, and is the new head. -/
def chainPending (acc : ChainHead × List AdminRow) (r : AdminRow) : ChainHead × List AdminRow :=
  let c := r.nextChain env acc.1
  (⟨c.seq, c.hash⟩, acc.2.map (AdminRow.setChain r.id c))

/-- The table, and the number of rows that were chained. Without a pending row not even the head is created. -/
def AdminTable.backfillAdminChain (t : AdminTable) : AdminTable × ℕ :=
  let pending := t.pending collate
  if pending.isEmpty then (t, 0)
  else
    let done := pending.foldl (chainPending env) (t.head.getD genesis, t.rows)
    (⟨some done.1, done.2⟩, pending.length)

inductive AdminTxn where
  | recordAdminAction (id : Units) (createdAt : ℤ) (input : AdminInput)
  | backfillAdminChain

def AdminTable.step (t : AdminTable) : AdminTxn × Bool → AdminTable
  | (_, false) => t
  | (.recordAdminAction id createdAt input, true) => t.record env id createdAt input
  | (.backfillAdminChain, true) => (t.backfillAdminChain env collate).1

def AdminTable.run (t : AdminTable) (txns : List (AdminTxn × Bool)) : AdminTable := txns.foldl (AdminTable.step env collate) t

end Backfill

structure Legacy where
  rows : List AdminRow
  unchained : ∀ r ∈ rows, r.chain = none
  ids : (rows.map AdminRow.id).Nodup

def Legacy.table (legacy : Legacy) : AdminTable := ⟨none, legacy.rows⟩

end Captivo.Audit
