import CaptivoAccess.Proofs.AdminVerify
import CaptivoAccess.Spec.AdminBackfill

/-! The admin chain over a table that has rows from before it: in whatever order actions
are recorded and the old rows are chained, the rows that are in the chain are numbered
from one to the head's number and verify. -/

namespace Captivo.Audit

open Lib.JsonText Lib.JsValue Lib.HashChain

/-- The rows of the table that are chained, in the order of the chain. -/
structure InOrder (env : Env) (t : AdminTable) (chain : List AdminAuditEvent) : Prop where
  perm : chain.Perm t.db.rows
  untouched : Untouched ⟨t.head, chain⟩
  recomputes : ∀ r ∈ chain, Recomputes (computeAdminHash env.sha256 env.toISOString) r.stored

theorem verifiedRows_of_perm {db : AdminDb} {chain : List AdminAuditEvent} (h : Untouched ⟨db.head, chain⟩)
    (hp : chain.Perm db.rows) : verifiedRows db = chain := by
  have hlt : chain.Pairwise fun r r' => r.seq < r'.seq := by
    have hlt := linked_sorted AdminChainable.seq h.linked
    rwa [List.pairwise_map] at hlt
  have hperm : (verifiedRows db).Perm (verifiedRows ⟨db.head, chain⟩) :=
    (List.perm_insertionSort _ _).trans ((hp.symm.filter _).trans (List.perm_insertionSort _ _).symm)
  have hsorted : ∀ d : AdminDb, (verifiedRows d).Pairwise fun r r' => r.seq ≤ r'.seq :=
    fun d => List.pairwise_insertionSort _ _
  rw [verifiedRows_eq h] at hperm
  refine hperm.eq_of_pairwise (fun r r' hr hr' hle hge => ?_) (hsorted db) (hlt.imp Nat.le_of_lt)
  -- two rows of the chain with one number are one row
  have hinj := List.inj_on_of_nodup_map (List.pairwise_map.2 (hlt.imp Nat.ne_of_lt) : (chain.map (·.seq)).Nodup)
  exact hinj (hperm.mem_iff.1 hr) hr' (Nat.le_antisymm hle hge)

section Update

variable {rows : List AdminRow} {r row : AdminRow} {id : Units} {c : ChainColumns}

@[simp]
theorem setChain_id : (AdminRow.setChain id c r).id = r.id := by
  unfold AdminRow.setChain
  split_ifs <;> rfl

theorem setChain_of_ne (h : r.id ≠ id) : AdminRow.setChain id c r = r := if_neg h

theorem mem_setChain_of_ne (hr : r ∈ rows) (h : r.id ≠ id) : r ∈ rows.map (AdminRow.setChain id c) :=
  List.mem_map.2 ⟨r, hr, setChain_of_ne h⟩

theorem unchained_setChain (hr : r ∈ rows.map (AdminRow.setChain id c)) (h : r.chain = none) : r ∈ rows ∧ r.id ≠ id := by
  obtain ⟨row, hrow, rfl⟩ := List.mem_map.1 hr
  by_cases hid : row.id = id
  · simp [AdminRow.setChain, hid] at h
  · rw [setChain_of_ne hid]
    exact ⟨hrow, hid⟩

theorem map_setChain {before after : List AdminRow} (hids : ((before ++ r :: after).map AdminRow.id).Nodup) :
    (before ++ r :: after).map (AdminRow.setChain r.id c) = before ++ { r with chain := some c } :: after := by
  rw [List.map_append, List.map_cons, List.nodup_append, List.nodup_cons] at hids
  obtain ⟨-, ⟨hafter, -⟩, hbefore⟩ := hids
  have hb : before.map (AdminRow.setChain r.id c) = before := by
    conv_rhs => rw [← List.map_id before]
    refine List.map_congr_left fun row hrow => setChain_of_ne ?_
    exact hbefore row.id (List.mem_map_of_mem hrow) r.id List.mem_cons_self
  have ha : after.map (AdminRow.setChain r.id c) = after := by
    conv_rhs => rw [← List.map_id after]
    refine List.map_congr_left fun row hrow => setChain_of_ne fun he => hafter ?_
    rw [← he]
    exact List.mem_map_of_mem hrow
  rw [List.map_append, List.map_cons, hb, ha, AdminRow.setChain, if_pos rfl]

theorem chained_setChain (hids : (rows.map AdminRow.id).Nodup) (hr : r ∈ rows) (h : r.chain = none) :
    ((rows.map (AdminRow.setChain r.id c)).filterMap AdminRow.chained).Perm
      (rows.filterMap AdminRow.chained ++ [r.event c]) := by
  obtain ⟨before, after, rfl⟩ := List.append_of_mem hr
  have hold : r.chained = none := by simp [AdminRow.chained, h]
  have hnew : AdminRow.chained { r with chain := some c } = some (r.event c) := rfl
  rw [map_setChain hids, List.filterMap_append, List.filterMap_append, List.filterMap_cons_some hnew,
    List.filterMap_cons_none hold]
  refine List.perm_middle.trans ?_
  exact (List.perm_append_singleton _ _).symm

theorem ids_chainPending (env : Env) (acc : ChainHead × List AdminRow) (r : AdminRow) :
    (chainPending env acc r).2.map AdminRow.id = acc.2.map AdminRow.id := by
  simp [chainPending, Function.comp_def]

theorem ids_foldl (env : Env) (pending : List AdminRow) (acc : ChainHead × List AdminRow) :
    (pending.foldl (chainPending env) acc).2.map AdminRow.id = acc.2.map AdminRow.id := by
  induction pending generalizing acc with
  | nil => rfl
  | cons r rest ih => rw [List.foldl_cons, ih, ids_chainPending]

theorem mem_foldl_of_not_pending (env : Env) {pending : List AdminRow} {acc : ChainHead × List AdminRow} (hr : r ∈ acc.2)
    (h : r.id ∉ pending.map AdminRow.id) : r ∈ (pending.foldl (chainPending env) acc).2 := by
  induction pending generalizing acc with
  | nil => exact hr
  | cons p rest ih =>
    rw [List.map_cons, List.mem_cons, not_or] at h
    exact ih (mem_setChain_of_ne hr h.1) h.2

theorem unchained_foldl (env : Env) {pending : List AdminRow} {acc : ChainHead × List AdminRow}
    (hr : r ∈ (pending.foldl (chainPending env) acc).2) (h : r.chain = none) :
    r ∈ acc.2 ∧ r.id ∉ pending.map AdminRow.id := by
  induction pending generalizing acc with
  | nil => exact ⟨hr, List.not_mem_nil⟩
  | cons p rest ih =>
    obtain ⟨hr, hrest⟩ := ih hr
    obtain ⟨hr, hne⟩ := unchained_setChain hr h
    refine ⟨hr, ?_⟩
    rw [List.map_cons, List.mem_cons, not_or]
    exact ⟨hne, hrest⟩

end Update

section Steps

variable {env : Env} {collate : Units → Units → Bool} {t : AdminTable} {chain : List AdminAuditEvent}

theorem inOrder_record (h : InOrder env t chain) {id : Units} {createdAt : ℤ} {input : AdminInput}
    (hplain : input.plainMetadata = true) : ∃ chain', InOrder env (t.record env id createdAt input) chain' := by
  unfold AdminTable.record
  split_ifs with hok
  · refine ⟨chain ++ [adminRow env (t.head.getD genesis) input], ?_, untouched_concat h.untouched rfl rfl, ?_⟩
    · simp only [AdminTable.db, List.filterMap_append]
      exact h.perm.append_right _
    · rw [List.forall_mem_append, List.forall_mem_singleton]
      exact ⟨h.recomputes, recomputes_adminRow env t.db hplain⟩
  · exact ⟨chain, h⟩

theorem inOrder_upsert (h : InOrder env t chain) : InOrder env ⟨some (t.head.getD genesis), t.rows⟩ chain :=
  ⟨h.perm, ⟨h.untouched.linked, h.untouched.head, nofun⟩, h.recomputes⟩

theorem inOrder_chainPending {acc : ChainHead × List AdminRow} {r : AdminRow} (h : InOrder env ⟨some acc.1, acc.2⟩ chain)
    (hids : (acc.2.map AdminRow.id).Nodup) (hr : r ∈ acc.2) (hnone : r.chain = none) :
    InOrder env ⟨some (chainPending env acc r).1, (chainPending env acc r).2⟩ (chain ++ [r.event (r.nextChain env acc.1)]) := by
  let e := r.event (r.nextChain env acc.1)
  have huntouched : Untouched ⟨some ⟨e.seq, e.hash⟩, chain ++ [e]⟩ := untouched_concat h.untouched rfl rfl
  refine ⟨?_, huntouched, ?_⟩
  · exact (h.perm.append_right _).trans (chained_setChain hids hr hnone).symm
  · rw [List.forall_mem_append, List.forall_mem_singleton]
    exact ⟨h.recomputes, rfl⟩

/-- The loop, over rows that are all still pending: each turn takes one of them, and leaves the others as they are. -/
theorem inOrder_foldl {pending : List AdminRow} {acc : ChainHead × List AdminRow} (h : InOrder env ⟨some acc.1, acc.2⟩ chain)
    (hids : (acc.2.map AdminRow.id).Nodup) (hdistinct : (pending.map AdminRow.id).Nodup)
    (hpending : ∀ r ∈ pending, r ∈ acc.2 ∧ r.chain = none) :
    ∃ chain', InOrder env ⟨some (pending.foldl (chainPending env) acc).1, (pending.foldl (chainPending env) acc).2⟩ chain' := by
  induction pending generalizing acc chain with
  | nil => exact ⟨chain, h⟩
  | cons r rest ih =>
    rw [List.map_cons, List.nodup_cons] at hdistinct
    obtain ⟨hr, hrest⟩ := List.forall_mem_cons.1 hpending
    refine ih (inOrder_chainPending h hids hr.1 hr.2) ?_ hdistinct.2 fun row hrow => ⟨?_, (hrest row hrow).2⟩
    · rwa [ids_chainPending]
    · refine mem_setChain_of_ne (hrest row hrow).1 fun he => hdistinct.1 ?_
      rw [← he]
      exact List.mem_map_of_mem hrow

theorem mem_pending {r : AdminRow} : r ∈ t.pending collate ↔ r ∈ t.rows ∧ r.chain = none := by
  rw [AdminTable.pending, (List.mergeSort_perm _ _).mem_iff, List.mem_filter, Option.isNone_iff_eq_none]

theorem ids_pending (hids : (t.rows.map AdminRow.id).Nodup) : ((t.pending collate).map AdminRow.id).Nodup := by
  rw [AdminTable.pending, ((List.mergeSort_perm _ _).map _).nodup_iff]
  exact hids.sublist (List.filter_sublist.map _)

theorem not_pending_of_chained (hids : (t.rows.map AdminRow.id).Nodup) {r : AdminRow} (hr : r ∈ t.rows) (h : r.chain ≠ none) :
    r.id ∉ (t.pending collate).map AdminRow.id := by
  intro hid
  obtain ⟨p, hp, he⟩ := List.mem_map.1 hid
  obtain ⟨hp, hnone⟩ := mem_pending.1 hp
  rw [List.inj_on_of_nodup_map hids hp hr he] at hnone
  exact h hnone

end Steps

/-- What holds between the transactions. -/
structure Backfilling (env : Env) (t : AdminTable) : Prop where
  ids : (t.rows.map AdminRow.id).Nodup
  chain : ∃ chain, InOrder env t chain

/-- Every row is chained. -/
def AdminTable.Complete (t : AdminTable) : Prop := ∀ r ∈ t.rows, r.chain ≠ none

section Backfill

variable {env : Env} {collate : Units → Units → Bool} {t : AdminTable}

theorem pending_eq_nil_iff : t.pending collate = [] ↔ t.Complete := by
  rw [List.eq_nil_iff_forall_not_mem]
  refine forall_congr' fun r => ?_
  rw [mem_pending, not_and]

theorem backfill_of_complete (h : t.Complete) : t.backfillAdminChain env collate = (t, 0) := by
  simp [AdminTable.backfillAdminChain, pending_eq_nil_iff.2 h]

theorem backfilling_legacy (env : Env) (legacy : Legacy) : Backfilling env legacy.table := by
  refine ⟨legacy.ids, [], ?_, ⟨trivial, rfl, fun _ => rfl⟩, List.forall_mem_nil _⟩
  have hnone : legacy.rows.filterMap AdminRow.chained = [] := by
    rw [List.filterMap_eq_nil_iff]
    intro r hr
    simp [AdminRow.chained, legacy.unchained r hr]
  simp [AdminTable.db, Legacy.table, hnone]

theorem backfilling_record (h : Backfilling env t) {id : Units} {createdAt : ℤ} {input : AdminInput}
    (hplain : input.plainMetadata = true) : Backfilling env (t.record env id createdAt input) := by
  obtain ⟨chain, hchain⟩ := h.chain
  refine ⟨?_, inOrder_record hchain hplain⟩
  unfold AdminTable.record
  split_ifs with hok
  · simp only [Bool.and_eq_true, List.all_eq_true, decide_eq_true_eq] at hok
    rw [List.map_append, List.map_singleton, List.nodup_append]
    refine ⟨h.ids, List.nodup_singleton _, fun i hi j hj => ?_⟩
    obtain ⟨r, hr, rfl⟩ := List.mem_map.1 hi
    rw [List.mem_singleton.1 hj]
    exact hok.2 r hr
  · exact h.ids

theorem backfilling_backfill (h : Backfilling env t) : Backfilling env (t.backfillAdminChain env collate).1 := by
  obtain ⟨chain, hchain⟩ := h.chain
  simp only [AdminTable.backfillAdminChain]
  split_ifs with hempty
  · exact h
  · refine ⟨?_, inOrder_foldl (inOrder_upsert hchain) h.ids (ids_pending h.ids) fun r hr => mem_pending.1 hr⟩
    rw [ids_foldl]
    exact h.ids

theorem complete_backfill : (t.backfillAdminChain env collate).1.Complete := by
  simp only [AdminTable.backfillAdminChain]
  split_ifs with hempty
  · exact pending_eq_nil_iff.1 (List.isEmpty_iff.1 hempty)
  · intro r hr hnone
    obtain ⟨hold, hnot⟩ := unchained_foldl env hr hnone
    exact hnot (List.mem_map_of_mem (mem_pending.2 ⟨hold, hnone⟩))

theorem kept_step (h : Backfilling env t) (e : AdminTxn × Bool) {r : AdminRow} (hr : r ∈ t.rows) (hc : r.chain ≠ none) :
    r ∈ (t.step env collate e).rows := by
  match e with
  | (_, false) => exact hr
  | (.recordAdminAction id createdAt input, true) =>
    simp only [AdminTable.step, AdminTable.record]
    split_ifs
    · exact List.mem_append_left _ hr
    · exact hr
  | (.backfillAdminChain, true) =>
    simp only [AdminTable.step, AdminTable.backfillAdminChain]
    split_ifs
    · exact hr
    · exact mem_foldl_of_not_pending env hr (not_pending_of_chained h.ids hr hc)

theorem complete_step (h : t.Complete) (e : AdminTxn × Bool) : (t.step env collate e).Complete := by
  match e with
  | (_, false) => exact h
  | (.recordAdminAction id createdAt input, true) =>
    simp only [AdminTable.step, AdminTable.record]
    split_ifs
    · refine List.forall_mem_append.2 ⟨h, List.forall_mem_singleton.2 ?_⟩
      exact Option.some_ne_none _
    · exact h
  | (.backfillAdminChain, true) => exact complete_backfill

end Backfill

/-- The metadata of an action comes back from its column as it was hashed. -/
def AdminTxn.plain : AdminTxn → Bool
  | .recordAdminAction _ _ input => input.plainMetadata
  | .backfillAdminChain => true


section Runs

variable {env : Env} {collate : Units → Units → Bool}

theorem backfilling_step {t : AdminTable} (h : Backfilling env t) {e : AdminTxn × Bool} (he : e.1.plain = true) :
    Backfilling env (t.step env collate e) := by
  match e with
  | (_, false) => exact h
  | (.recordAdminAction _ _ _, true) => exact backfilling_record h he
  | (.backfillAdminChain, true) => exact backfilling_backfill h

theorem backfilling_run {t : AdminTable} (h : Backfilling env t) {txns : List (AdminTxn × Bool)}
    (hplain : ∀ e ∈ txns, e.1.plain = true) : Backfilling env (t.run env collate txns) := by
  induction txns generalizing t with
  | nil => exact h
  | cons e txns ih =>
    obtain ⟨he, hrest⟩ := List.forall_mem_cons.1 hplain
    exact ih (backfilling_step h he) hrest

theorem kept_run {t : AdminTable} (h : Backfilling env t) {txns : List (AdminTxn × Bool)}
    (hplain : ∀ e ∈ txns, e.1.plain = true) {r : AdminRow} (hr : r ∈ t.rows) (hc : r.chain ≠ none) :
    r ∈ (t.run env collate txns).rows := by
  induction txns generalizing t with
  | nil => exact hr
  | cons e txns ih =>
    obtain ⟨he, hrest⟩ := List.forall_mem_cons.1 hplain
    exact ih (backfilling_step h he) hrest (kept_step h e hr hc)

theorem complete_run {t : AdminTable} (h : t.Complete) (txns : List (AdminTxn × Bool)) :
    (t.run env collate txns).Complete := by
  induction txns generalizing t with
  | nil => exact h
  | cons e txns ih => exact ih (complete_step h e)

theorem numbered {t : AdminTable} (h : Backfilling env t) :
    (t.db.rows.map (·.seq)).Perm (List.range' 1 (t.head.getD genesis).lastSeq) := by
  obtain ⟨chain, hchain⟩ := h.chain
  have hrange := linked_range AdminChainable.seq hchain.untouched.linked
  have hlast := lastSeq_headAfter AdminChainable.seq hchain.untouched.linked
  rw [← hchain.untouched.head] at hlast
  simp only [genesis, Nat.zero_add] at hrange hlast
  rw [← hlast, List.map_map] at hrange
  exact (hchain.perm.symm.map _).trans (List.Perm.of_eq hrange)

theorem verifies {t : AdminTable} (h : Backfilling env t) :
    (verifyAdminChain env.sha256 env.toISOString ((verifiedRows t.db).map AdminAuditEvent.stored) t.head).ok = true := by
  obtain ⟨chain, hchain⟩ := h.chain
  have hok := (adminVerify_ok_iff env hchain.untouched).2 hchain.recomputes
  rwa [verifiedRows_eq hchain.untouched, ← verifiedRows_of_perm hchain.untouched hchain.perm] at hok

end Runs

/-- After every sequence of transactions over a table from before the chain: the chained rows have the numbers from one to the
head's, each once; the chain verifies against the head; no row is chained twice, for a row keeps what it was chained with and no
two have an id in common; and once a backfill was committed another one changes nothing. -/
theorem backfilled_chain_verifies (env : Env) (collate : Units → Units → Bool) (legacy : Legacy) (txns : List (AdminTxn × Bool))
    (hplain : ∀ e ∈ txns, e.1.plain = true) :
    ((legacy.table.run env collate txns).db.rows.map (·.seq)).Perm
      (List.range' 1 ((legacy.table.run env collate txns).head.getD genesis).lastSeq) ∧
    (verifyAdminChain env.sha256 env.toISOString
      ((verifiedRows (legacy.table.run env collate txns).db).map AdminAuditEvent.stored)
      (legacy.table.run env collate txns).head).ok = true ∧
    (((legacy.table.run env collate txns).rows.map AdminRow.id).Nodup ∧
      ∀ earlier later, txns = earlier ++ later → ∀ r ∈ (legacy.table.run env collate earlier).rows, r.chain ≠ none →
        r ∈ (legacy.table.run env collate txns).rows) ∧
    ∀ earlier later, txns = earlier ++ (.backfillAdminChain, true) :: later →
      (legacy.table.run env collate txns).backfillAdminChain env collate = (legacy.table.run env collate txns, 0) := by
  have hinv : Backfilling env (legacy.table.run env collate txns) := backfilling_run (backfilling_legacy env legacy) hplain
  refine ⟨numbered hinv, verifies hinv, ⟨hinv.ids, ?_⟩, ?_⟩
  · rintro earlier later rfl r hr hc
    obtain ⟨hearlier, hlater⟩ := List.forall_mem_append.1 hplain
    rw [AdminTable.run, List.foldl_append]
    exact kept_run (backfilling_run (backfilling_legacy env legacy) hearlier) hlater hr hc
  · rintro earlier later rfl
    refine backfill_of_complete ?_
    rw [AdminTable.run, List.foldl_append, List.foldl_cons]
    exact complete_run complete_backfill later

def toyEnv : Env := ⟨id, fun _ => [], Jsonb.asWritten, fun _ => true⟩

def oldRow : AdminRow where
  id := units "e1"
  createdAt := 0
  timestamp := 0
  actorId := none
  actorEmail := none
  action := units "site.create"
  targetType := none
  targetId := none
  summary := units "Created site crm"
  metadata := none
  clientIp := none
  chain := none

def oneOldRow : Legacy := ⟨[oldRow], List.forall_mem_singleton.2 rfl, List.nodup_singleton _⟩

def siteUpdate : AdminInput :=
  ⟨1, units "a1", none, units "site.update", none, none, units "Updated site crm", none, none⟩

def oldRowTxns : List (AdminTxn × Bool) :=
  [(.recordAdminAction (units "e2") 1 siteUpdate, true), (.backfillAdminChain, false), (.backfillAdminChain, true)]

/-- The old row comes after the one that was recorded first. -/
theorem backfilled_chain_verifies_one_old_row :
    (oneOldRow.table.run toyEnv (fun _ _ => true) oldRowTxns).db.rows.map (·.seq) = [2, 1] ∧
    (verifyAdminChain toyEnv.sha256 toyEnv.toISOString
      ((verifiedRows (oneOldRow.table.run toyEnv (fun _ _ => true) oldRowTxns).db).map AdminAuditEvent.stored)
      (oneOldRow.table.run toyEnv (fun _ _ => true) oldRowTxns).head).ok = true := by
  have hplain : ∀ e ∈ oldRowTxns, e.1.plain = true := by
    simp [oldRowTxns, AdminTxn.plain, AdminInput.plainMetadata, siteUpdate]
  exact ⟨by decide +kernel, (backfilled_chain_verifies toyEnv _ oneOldRow oldRowTxns hplain).2.1⟩

end Captivo.Audit
