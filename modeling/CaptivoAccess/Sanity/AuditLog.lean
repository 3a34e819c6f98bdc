import CaptivoAccess.Sanity.AuditChain
import CaptivoAccess.Spec.AuditLog

/-! One append to a tenant's chain. It is all or nothing (`appendAuditEvents_eq`), and
what it adds continues the chain with hashes that recompute. -/

namespace Captivo.Audit

open Lib.JsonText Lib.JsValue Lib.HashChain

section Append

variable (sha256 : Units → Units) (toISOString : ℤ → Units)

/-- The tenant's rows with those of the events behind them. -/
def extend (db : TenantDb) (now : ℤ) (events : List AuditInput) : TenantDb :=
  if events = [] then db
  else
    let rows := chainRows sha256 toISOString (db.head.getD genesis) (events.map (normalizeAuditInput db now))
    { db with head := some (headOf (db.head.getD genesis) rows), rows := db.rows ++ rows }

theorem extend_nil (db : TenantDb) (now : ℤ) : extend sha256 toISOString db now [] = db := if_pos rfl

theorem length_chainRows (head : ChainHead) (ns : List NormalizedAuditRow) :
    (chainRows sha256 toISOString head ns).length = ns.length := by
  induction ns generalizing head with
  | nil => rfl
  | cons n ns ih => simp only [chainRows, List.length_cons, ih]

/-- An id that a lookup rejects stands in a row that the insert would reject. -/
theorem unstorable_of_lookup (db : TenantDb) (now : ℤ) {events : List AuditInput}
    (h : (lookupIds events).any hasNul = true) :
    ∃ e ∈ events, storable (normalizeAuditInput db now e) = false := by
  obtain ⟨id, hid, hnul⟩ := List.any_eq_true.1 h
  have hrow : ∀ n : NormalizedAuditRow, id ∈ n.texts → storable n = false := by
    intro n hn
    have htexts : n.texts.all (fun t => !hasNul t) = false := by
      rw [List.all_eq_false]
      exact ⟨id, hn, by simp [hnul]⟩
    simp [storable, htexts]
  rcases List.mem_append.1 hid with hu | hs
  · obtain ⟨e, he, hf⟩ := List.mem_filterMap.1 hu
    obtain ⟨huser, -⟩ := Option.filter_eq_some_iff.1 hf
    exact ⟨e, he, hrow _ (by simp [NormalizedAuditRow.texts, normalizeAuditInput, huser])⟩
  · obtain ⟨e, he, hf⟩ := List.mem_filterMap.1 hs
    obtain ⟨hsite, -⟩ := Option.filter_eq_some_iff.1 hf
    exact ⟨e, he, hrow _ (by simp [NormalizedAuditRow.texts, normalizeAuditInput, hsite])⟩

theorem appendAuditEvents_eq (db : TenantDb) (now : ℤ) (events : List AuditInput) :
    appendAuditEvents sha256 toISOString db now events =
      if ∀ e ∈ events, storable (normalizeAuditInput db now e) = true then
        some (extend sha256 toISOString db now events, events.length)
      else none := by
  by_cases hnil : events = []
  · subst hnil
    simp [appendAuditEvents, extend_nil]
  by_cases hnul : (lookupIds events).any hasNul = true
  · obtain ⟨e, he, hs⟩ := unstorable_of_lookup db now hnul
    have hall : ¬ ∀ e ∈ events, storable (normalizeAuditInput db now e) = true := by
      intro hall
      rw [hall e he] at hs
      cases hs
    rw [appendAuditEvents, if_neg hnil, if_pos hnul, if_neg hall]
  · have hmap : (events.map (normalizeAuditInput db now)).all storable = true ↔
        ∀ e ∈ events, storable (normalizeAuditInput db now e) = true := by
      simp
    rw [appendAuditEvents, if_neg hnil, if_neg hnul]
    simp only [hmap, extend, if_neg hnil, length_chainRows, List.length_map]

/-! The chain of a tenant. -/

/-- The rows are one chain from the first, the head is the last of them and every hash recomputes. -/
structure Sound (db : TenantDb) : Prop where
  linked : Linked ChainableEvent.seq genesis (db.rows.map AuditRow.stored)
  head : db.head.getD genesis = headAfter ChainableEvent.seq genesis (db.rows.map AuditRow.stored)
  started : db.head = none → db.rows = []
  recomputes : ∀ r ∈ db.rows, Recomputes (computeHash sha256 toISOString) r.stored

theorem chainRows_sound (head : ChainHead) (ns : List NormalizedAuditRow) :
    Linked ChainableEvent.seq head ((chainRows sha256 toISOString head ns).map AuditRow.stored) ∧
      ∀ r ∈ chainRows sha256 toISOString head ns, Recomputes (computeHash sha256 toISOString) r.stored := by
  induction ns generalizing head with
  | nil => exact ⟨trivial, List.forall_mem_nil _⟩
  | cons n ns ih =>
    obtain ⟨hl, hr⟩ := ih ⟨(chainRow sha256 toISOString head n).seq, (chainRow sha256 toISOString head n).hash⟩
    exact ⟨⟨rfl, rfl, hl⟩, List.forall_mem_cons.2 ⟨rfl, hr⟩⟩

theorem headOf_eq (head : ChainHead) (rows : List AuditRow) :
    headOf head rows = headAfter ChainableEvent.seq head (rows.map AuditRow.stored) := by
  rw [headAfter, List.foldl_map]
  rfl

theorem sound_extend {db : TenantDb} (h : Sound sha256 toISOString db) (now : ℤ) (events : List AuditInput) :
    Sound sha256 toISOString (extend sha256 toISOString db now events) := by
  unfold extend
  split_ifs with hnil
  · exact h
  · obtain ⟨hl, hr⟩ := chainRows_sound sha256 toISOString (db.head.getD genesis)
      (events.map (normalizeAuditInput db now))
    refine ⟨?_, ?_, fun hn => by simp at hn, ?_⟩
    · rw [List.map_append, linked_append, ← h.head]
      exact ⟨h.linked, hl⟩
    · rw [List.map_append, headAfter_append, ← h.head]
      exact headOf_eq _ _
    · exact List.forall_mem_append.2 ⟨h.recomputes, hr⟩

end Append

end Captivo.Audit
