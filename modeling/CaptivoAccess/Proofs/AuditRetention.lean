import CaptivoAccess.Sanity.AuditLog
import CaptivoAccess.Spec.AuditRetention

/-! Appends and retention. Whatever order they come in, what is stored is the end of
the chain that was appended (`Retained`), so the verifier finds nothing wrong with it. -/

namespace Captivo.Audit

open Lib.JsonText Lib.HashChain

section Run

variable (sha256 : Units → Units) (toISOString : ℤ → Units)

/-- With the rows that are gone in front again, the chain is sound. -/
def Retained (db : TenantDb) : Prop := ∃ gone, Sound sha256 toISOString { db with rows := gone ++ db.rows }

variable {sha256 toISOString}

theorem retained_empty : Retained sha256 toISOString emptyChain :=
  ⟨[], trivial, rfl, fun _ => rfl, List.forall_mem_nil _⟩

variable {db : TenantDb}

theorem sound_append (h : Sound sha256 toISOString db) (users : Units → Option UserNames)
    (sites : Units → Option Units) (now : ℤ) (events : List AuditInput) :
    Sound sha256 toISOString (chainStep sha256 toISOString db (.append users sites now events)) := by
  have hnames : Sound sha256 toISOString { db with users := users, sites := sites } :=
    ⟨h.linked, h.head, h.started, h.recomputes⟩
  simp only [chainStep, appendAuditEvents_eq]
  split_ifs with hall
  · exact sound_extend sha256 toISOString hnames now events
  · exact hnames

theorem chainStep_append_gone (gone : List AuditRow) (db : TenantDb) (users : Units → Option UserNames)
    (sites : Units → Option Units) (now : ℤ) (events : List AuditInput) :
    chainStep sha256 toISOString { db with rows := gone ++ db.rows } (.append users sites now events) =
      { chainStep sha256 toISOString db (.append users sites now events) with
        rows := gone ++ (chainStep sha256 toISOString db (.append users sites now events)).rows } := by
  simp only [chainStep, appendAuditEvents_eq, extend, normalizeAuditInput]
  split_ifs with hall hnil
  · rfl
  · simp only [Option.map_some, Option.getD_some, List.append_assoc]
    rfl
  · rfl

theorem retained_append (h : Retained sha256 toISOString db) (users : Units → Option UserNames)
    (sites : Units → Option Units) (now : ℤ) (events : List AuditInput) :
    Retained sha256 toISOString (chainStep sha256 toISOString db (.append users sites now events)) := by
  obtain ⟨gone, hs⟩ := h
  refine ⟨gone, ?_⟩
  rw [← chainStep_append_gone]
  exact sound_append hs users sites now events

theorem retained_sorted (h : Retained sha256 toISOString db) :
    db.rows.Pairwise fun r r' => r.seq < r'.seq := by
  obtain ⟨gone, hs⟩ := h
  have hsorted := linked_sorted _ hs.linked
  rw [List.pairwise_map, List.pairwise_append] at hsorted
  exact hsorted.2.1

theorem retained_above (h : Retained sha256 toISOString db) (c : ℕ) :
    Retained sha256 toISOString { db with rows := db.rows.filter fun r => c < r.seq } := by
  obtain ⟨pruned, hp⟩ := exists_append_above AuditRow.seq (retained_sorted h) c
  obtain ⟨gone, hs⟩ := h
  refine ⟨gone ++ pruned, ?_⟩
  rw [List.append_assoc, ← hp]
  exact hs

theorem retained_retention (h : Retained sha256 toISOString db) (now : ℤ) (retentionDays : ℕ) :
    Retained sha256 toISOString (auditRetention db now retentionDays).1 := by
  simp only [auditRetention]
  split
  · exact h
  · exact retained_above h _

theorem retained_step (h : Retained sha256 toISOString db) (s : ChainStep) :
    Retained sha256 toISOString (chainStep sha256 toISOString db s) := by
  cases s with
  | append users sites now events => exact retained_append h users sites now events
  | retention now retentionDays => exact retained_retention h now retentionDays

theorem retained_run (steps : List ChainStep) : Retained sha256 toISOString (runChain sha256 toISOString steps) := by
  unfold runChain
  induction steps using List.reverseRecOn with
  | nil => exact retained_empty
  | append_singleton steps s ih =>
    rw [List.foldl_append]
    exact retained_step ih s

theorem sound_run {steps : List ChainStep} (h : ∀ s ∈ steps, s.isAppend = true) :
    Sound sha256 toISOString (runChain sha256 toISOString steps) := by
  unfold runChain
  induction steps using List.reverseRecOn with
  | nil => exact ⟨trivial, rfl, fun _ => rfl, List.forall_mem_nil _⟩
  | append_singleton steps s ih =>
    rw [List.forall_mem_append, List.forall_mem_singleton] at h
    rw [List.foldl_append]
    cases s with
    | append users sites now events => exact sound_append (ih h.1) users sites now events
    | retention now retentionDays => exact absurd h.2 (by simp [ChainStep.isAppend])

/-! What a retained chain looks like. -/

/-- The rows that are left go on from the head as it was before the first of them. -/
theorem retained_linked (h : Retained sha256 toISOString db) :
    ∃ before, Linked ChainableEvent.seq before (db.rows.map AuditRow.stored) ∧
      db.head.getD genesis = headAfter ChainableEvent.seq before (db.rows.map AuditRow.stored) := by
  obtain ⟨gone, hs⟩ := h
  have hl := hs.linked
  have hh := hs.head
  rw [List.map_append, linked_append] at hl
  rw [List.map_append, headAfter_append] at hh
  exact ⟨_, hl.2, hh⟩

theorem verifyChain_of_retained (h : Retained sha256 toISOString db) :
    (verifyChain sha256 toISOString (db.rows.map AuditRow.stored) db.head).ok = true := by
  obtain ⟨before, hl, hh⟩ := retained_linked h
  obtain ⟨gone, hs⟩ := h
  cases hd : db.head with
  | none =>
    have hnil : db.rows = [] := (List.append_eq_nil_iff.1 (hs.started hd)).2
    rw [hnil]
    rfl
  | some head =>
    rw [hd, Option.getD_some] at hh
    rw [hh, verifyChain, verifyWith_ok_iff _ _ hl, List.forall_mem_map]
    exact fun r hr => hs.recomputes r (List.mem_append_right _ hr)

theorem retained_range (h : Retained sha256 toISOString db) :
    ∃ first, db.rows.map AuditRow.seq = List.range' first db.rows.length ∧
      first + db.rows.length = (db.head.getD genesis).lastSeq + 1 := by
  obtain ⟨before, hl, hh⟩ := retained_linked h
  have hrange := linked_range _ hl
  have hlast := lastSeq_headAfter _ hl
  rw [List.map_map, List.length_map] at hrange
  rw [← hh, List.length_map] at hlast
  exact ⟨before.lastSeq + 1, hrange, by omega⟩

theorem retained_head (h : Retained sha256 toISOString db) {last : AuditRow}
    (hlast : last ∈ db.rows.getLast?) : db.head = some ⟨last.seq, last.hash⟩ := by
  obtain ⟨before, hl, hh⟩ := retained_linked h
  obtain ⟨gone, hs⟩ := h
  obtain ⟨front, hrows⟩ := List.getLast?_eq_some_iff.1 hlast
  rw [hrows, List.map_append, headAfter_append] at hh
  cases hd : db.head with
  | none =>
    have hnil := (List.append_eq_nil_iff.1 (hs.started hd)).2
    simp [hrows] at hnil
  | some head =>
    rw [hd, Option.getD_some] at hh
    exact congrArg some hh

/-- After any appends and retention runs, the rows that are left are numbered without a gap up to
the head, each holds the hash of the one before it, the head is the last, and the verifier accepts them. -/
theorem surviving_rows_verify (sha256 : Units → Units) (toISOString : ℤ → Units) (steps : List ChainStep) :
    let db := runChain sha256 toISOString steps
    (∃ first, db.rows.map AuditRow.seq = List.range' first db.rows.length ∧
      first + db.rows.length = (db.head.getD genesis).lastSeq + 1) ∧
    db.rows.IsChain (fun r r' => r'.prevHash = r.hash) ∧
    (∀ last ∈ db.rows.getLast?, db.head = some ⟨last.seq, last.hash⟩) ∧
    (verifyChain sha256 toISOString (db.rows.map AuditRow.stored) db.head).ok = true := by
  intro db
  have h : Retained sha256 toISOString db := retained_run steps
  obtain ⟨before, hl, -⟩ := retained_linked h
  have hchain := isChain_of_chained (chained_of_linked hl)
  rw [List.isChain_map] at hchain
  exact ⟨retained_range h, hchain, fun last hlast => retained_head h hlast, verifyChain_of_retained h⟩

end Run

/-! What a retention run takes along. -/

/-- Milliseconds. -/
def cutoff (now : ℤ) (retentionDays : ℕ) : ℤ := now - retentionDays * 24 * 60 * 60 * 1000

theorem mem_auditRetention (db : TenantDb) (now : ℤ) (retentionDays : ℕ) (r : AuditRow) :
    r ∈ (auditRetention db now retentionDays).1.rows ↔
      r ∈ db.rows ∧ ∀ old ∈ db.rows, old.timestamp < cutoff now retentionDays → old.seq < r.seq := by
  have hexpired : ∀ n, n ∈ (db.rows.filter fun r => r.timestamp < cutoff now retentionDays).map AuditRow.seq ↔
      ∃ old ∈ db.rows, old.timestamp < cutoff now retentionDays ∧ old.seq = n := by
    intro n
    simp only [List.mem_map, List.mem_filter, decide_eq_true_eq, and_assoc]
  rw [cutoff] at hexpired ⊢
  rw [auditRetention]
  split
  · rename_i hnone
    rw [List.max?_eq_none_iff] at hnone
    refine (and_iff_left fun old hold htime => ?_).symm
    have hmem := (hexpired old.seq).2 ⟨old, hold, htime, rfl⟩
    rw [hnone] at hmem
    cases hmem
  · rename_i last hlast
    rw [List.max?_eq_some_iff] at hlast
    obtain ⟨hmem, hmax⟩ := hlast
    rw [List.mem_filter, decide_eq_true_eq]
    refine and_congr_right fun _ => ⟨fun hlt old hold htime => ?_, fun hall => ?_⟩
    · exact lt_of_le_of_lt (hmax old.seq ((hexpired old.seq).2 ⟨old, hold, htime, rfl⟩)) hlt
    · obtain ⟨old, hold, htime, rfl⟩ := (hexpired last).1 hmem
      exact hall old hold htime

/-- For every stored chain: a retention run deletes no event from the cutoff on if and only if each of them comes after all that are
older than the cutoff. -/
theorem retention_spares_young_iff (db : TenantDb) (now : ℤ) (retentionDays : ℕ) :
    (∀ r ∈ db.rows, cutoff now retentionDays ≤ r.timestamp → r ∈ (auditRetention db now retentionDays).1.rows) ↔
      ∀ r ∈ db.rows, cutoff now retentionDays ≤ r.timestamp →
        ∀ old ∈ db.rows, old.timestamp < cutoff now retentionDays → old.seq < r.seq := by
  refine forall₂_congr fun r hr => imp_congr_right fun _ => ?_
  rw [mem_auditRetention, and_iff_right hr]

/-- An event with nothing but its time. -/
def eventAt (timestamp : ℤ) : AuditInput :=
  ⟨some timestamp, none, none, none, none, none, none, none, none, none, none, none⟩

/-- An event of today, then one of two days ago that comes late. -/
def lateChain : List ChainStep :=
  [.append (fun _ => none) (fun _ => none) 172800000 [eventAt 172800000],
    .append (fun _ => none) (fun _ => none) 172800000 [eventAt 0]]

/-- With one day of retention both go. -/
theorem young_event_deleted :
    (runChain (fun _ => []) (fun _ => []) lateChain).rows.map (fun r => r.timestamp) = [172800000, 0] ∧
      (auditRetention (runChain (fun _ => []) (fun _ => []) lateChain) 172800000 1).1.rows = [] ∧
      cutoff 172800000 1 ≤ 172800000 := by
  decide +kernel

end Captivo.Audit
