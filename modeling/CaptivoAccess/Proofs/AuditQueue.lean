import CaptivoAccess.Spec.AuditLog
import CaptivoAccess.Lib.Ledger

/-! The audit queue is a log with holes: what was enqueued and not dropped has been drained
or is waiting, in order, and only the oldest waiting event is ever dropped. -/

namespace Captivo.Audit

open Lib.Ledger

/-- The events a sequence of calls enqueues. -/
def enqueued : List QueueCall → List AuditEvent
  | [] => []
  | .enqueue ev :: calls => ev :: enqueued calls
  | .drain _ :: calls => enqueued calls

/-- What the queue is for: every event is noted, a full queue drops the oldest that waits, and a drain takes the oldest ones. -/
def note (cap : ℕ) (l : Entries AuditEvent) : QueueCall → Entries AuditEvent
  | .enqueue ev => (if cap ≤ (those (· = .waiting) l).length then settle .dropped l else l) ++ [(ev, .waiting)]
  | .drain max => (settle .taken)^[max.toNat] l

def ledger (capacity : ℤ) (calls : List QueueCall) : Entries AuditEvent := calls.foldl (note (max capacity 1).toNat) []

/-- What was settled before a moment, and adds up to what the queue has given away and dropped by then. -/
structure Past (s : QueueRun) (past : Entries AuditEvent) : Prop where
  settled : ∀ x ∈ past, x.2 ≠ .waiting
  drained : those (· = .taken) past = s.drained
  dropped : (those (· = .dropped) past).length = s.queue.dropped

/-- The log of a queue is its past and then its buffer. -/
structure Keeps (cap : ℕ) (s : QueueRun) (l : Entries AuditEvent) : Prop where
  sized : s.queue.cap = cap
  fits : s.queue.buf.length ≤ cap
  past : ∃ past, Past s past ∧ l = past ++ waiting s.queue.buf

section Calls

variable {cap : ℕ} {s : QueueRun} {past : Entries AuditEvent}

theorem Past.those_waiting (h : Past s past) (buf : List AuditEvent) : those (· = .waiting) (past ++ waiting buf) = buf := by
  have hpast : those (· = .waiting) past = [] := by
    rw [those, List.map_eq_nil_iff, List.filter_eq_nil_iff]
    exact fun x hx => by simp [h.settled x hx]
  rw [those_append, hpast, waiting, those_map, List.nil_append]
  rfl

theorem Past.note_full (h : Past s past) {b : AuditEvent} {rest : List AuditEvent} (hfull : cap ≤ (b :: rest).length) (ev : AuditEvent) :
    note cap (past ++ waiting (b :: rest)) (.enqueue ev) = (past ++ [(b, .dropped)]) ++ waiting (rest ++ [ev]) := by
  rw [note, h.those_waiting, if_pos hfull, settle_append h.settled]
  simp [waiting, settle]

theorem Past.note_room (h : Past s past) {buf : List AuditEvent} (hroom : ¬ cap ≤ buf.length) (ev : AuditEvent) :
    note cap (past ++ waiting buf) (.enqueue ev) = past ++ waiting (buf ++ [ev]) := by
  rw [note, h.those_waiting, if_neg hroom]
  simp [waiting]

theorem Past.note_drain (h : Past s past) (buf : List AuditEvent) (max : ℤ) :
    note cap (past ++ waiting buf) (.drain max) =
      (past ++ (buf.take max.toNat).map (·, .taken)) ++ waiting (buf.drop max.toNat) :=
  settle_iterate (by decide) h.settled _ _

theorem Keeps.call (hcap : 1 ≤ cap) {l : Entries AuditEvent} (h : Keeps cap s l) (c : QueueCall) : Keeps cap (s.call c) (note cap l c) := by
  obtain ⟨past, hpast, rfl⟩ := h.past
  cases c with
  | enqueue ev =>
    by_cases hfull : cap ≤ s.queue.buf.length
    · have hne : s.queue.buf ≠ [] := List.ne_nil_of_length_pos (by omega)
      obtain ⟨b, rest, hbuf⟩ := List.exists_cons_of_ne_nil hne
      have hcall : s.call (.enqueue ev) =
          { s with queue := { s.queue with buf := rest ++ [ev], dropped := s.queue.dropped + 1 } } := by
        rw [QueueRun.call, AuditQueue.enqueue, if_pos (h.sized.trans_le hfull), hbuf, List.tail_cons]
      have hfits := h.fits
      rw [hcall]
      rw [hbuf] at hfull hfits ⊢
      refine ⟨h.sized, by simpa using hfits, past ++ [(b, .dropped)], ⟨?_, ?_, ?_⟩, hpast.note_full hfull ev⟩
      · exact settled_append (by decide) hpast.settled [b]
      · rw [those_append, hpast.drained]
        exact List.append_nil _
      · rw [those_append, List.length_append, hpast.dropped]
        rfl
    · have hcall : s.call (.enqueue ev) = { s with queue := { s.queue with buf := s.queue.buf ++ [ev] } } := by
        rw [QueueRun.call, AuditQueue.enqueue, if_neg (fun hle => hfull (h.sized.symm.trans_le hle))]
      rw [hcall]
      refine ⟨h.sized, ?_, past, ⟨hpast.settled, hpast.drained, hpast.dropped⟩, hpast.note_room hfull ev⟩
      rw [List.length_append, List.length_singleton]
      omega
  | drain max =>
    rw [QueueRun.call]
    split_ifs with hneg
    · have hnone : max.toNat = 0 := by omega
      refine ⟨h.sized, h.fits, past, hpast, ?_⟩
      rw [hpast.note_drain, hnone]
      simp
    · refine ⟨h.sized, ?_, past ++ (s.queue.buf.take max.toNat).map (·, .taken), ⟨?_, ?_, ?_⟩, hpast.note_drain _ max⟩
      · exact (List.drop_suffix _ _).length_le.trans h.fits
      · exact settled_append (by decide) hpast.settled _
      · rw [those_append, hpast.drained, those_map]
        rfl
      · rw [those_append, those_map, List.length_append, hpast.dropped]
        rfl

end Calls

variable (capacity : ℤ)

theorem keeps_run (calls : List QueueCall) :
    Keeps (max capacity 1).toNat (queueRun capacity calls) (ledger capacity calls) := by
  induction calls using List.reverseRecOn with
  | nil => exact ⟨rfl, Nat.zero_le _, [], ⟨nofun, rfl, rfl⟩, rfl⟩
  | append_singleton calls c ih =>
    rw [queueRun, ledger, List.foldl_append, List.foldl_append]
    exact ih.call (by omega) c

theorem enqueued_append (calls calls' : List QueueCall) : enqueued (calls ++ calls') = enqueued calls ++ enqueued calls' := by
  induction calls with
  | nil => rfl
  | cons c calls ih =>
    cases c with
    | enqueue ev => exact congrArg (ev :: ·) ih
    | drain max => exact ih

theorem ledger_append_singleton (calls : List QueueCall) (c : QueueCall) :
    ledger capacity (calls ++ [c]) = note (max capacity 1).toNat (ledger capacity calls) c := by
  rw [ledger, List.foldl_append]
  rfl

theorem ledger_events (calls : List QueueCall) : (ledger capacity calls).map (·.1) = enqueued calls := by
  induction calls using List.reverseRecOn with
  | nil => rfl
  | append_singleton calls c ih =>
    rw [ledger_append_singleton, enqueued_append, ← ih]
    cases c with
    | enqueue ev =>
      rw [note, List.map_append]
      split_ifs
      · rw [map_settle]
        rfl
      · rfl
    | drain max =>
      rw [note, map_settle_iterate]
      exact (List.append_nil _).symm

/-- Whatever is noted as dropped was, when it was dropped, the first of the buffer and older than all that waited. -/
theorem dropped_oldest (calls : List QueueCall) {i : ℕ} {ev : AuditEvent}
    (h : (ledger capacity calls)[i]? = some (ev, .dropped)) :
    ∃ pre e post, calls = pre ++ .enqueue e :: post ∧ (queueRun capacity pre).queue.buf.head? = some ev ∧
      (ledger capacity pre)[i]? = some (ev, .waiting) ∧
      (∀ j < i, ∀ x, (ledger capacity pre)[j]? = some x → x.2 ≠ .waiting) ∧
      (ledger capacity (pre ++ [.enqueue e]))[i]? = some (ev, .dropped) := by
  induction calls using List.reverseRecOn with
  | nil => cases h
  | append_singleton calls c ih =>
    by_cases hbefore : (ledger capacity calls)[i]? = some (ev, .dropped)
    · obtain ⟨pre, e, post, rfl, hrest⟩ := ih hbefore
      exact ⟨pre, e, post ++ [c], by simp, hrest⟩
    · -- this call dropped it: it made room for another one
      have hkeeps := keeps_run capacity calls
      obtain ⟨past, hpast, hl⟩ := hkeeps.past
      have hwaits : ∀ (buf : List AuditEvent) (j : ℕ), (waiting buf)[j]? ≠ some (ev, .dropped) := fun buf j hj =>
        Fate.noConfusion (fate_of_getElem? hj)
      have hlater : ∀ t, ledger capacity (calls ++ [c]) = past ++ t → past.length ≤ i ∧ t[i - past.length]? = some (ev, .dropped) := by
        intro t ht
        rw [ht, List.getElem?_append] at h
        split_ifs at h with hi
        · rw [hl, List.getElem?_append_left hi] at hbefore
          exact absurd h hbefore
        · exact ⟨not_lt.1 hi, h⟩
      rw [ledger_append_singleton, hl] at hlater
      cases c with
      | drain max =>
        obtain ⟨-, ht⟩ := hlater _ (by rw [hpast.note_drain, List.append_assoc])
        rw [List.getElem?_append] at ht
        split_ifs at ht
        · exact Fate.noConfusion (fate_of_getElem? ht)
        · exact absurd ht (hwaits _ _)
      | enqueue e =>
        by_cases hfull : (max capacity 1).toNat ≤ (queueRun capacity calls).queue.buf.length
        · have hne : (queueRun capacity calls).queue.buf ≠ [] := List.ne_nil_of_length_pos (by omega)
          obtain ⟨b, rest, hbuf⟩ := List.exists_cons_of_ne_nil hne
          rw [hbuf] at hlater hfull hl
          obtain ⟨hi, ht⟩ := hlater _ (by rw [hpast.note_full hfull, List.append_assoc])
          rw [List.singleton_append, List.getElem?_cons] at ht
          split_ifs at ht with hzero
          · obtain rfl : b = ev := by simpa using ht
            obtain rfl : i = past.length := by omega
            refine ⟨calls, e, [], rfl, by rw [hbuf]; rfl, ?_, ?_, h⟩
            · rw [hl, List.getElem?_append_right le_rfl, Nat.sub_self]
              rfl
            · intro j hj x hx
              rw [hl, List.getElem?_append_left hj] at hx
              exact hpast.settled x (List.mem_of_getElem? hx)
          · exact absurd ht (hwaits _ _)
        · obtain ⟨-, ht⟩ := hlater _ (hpast.note_room hfull e)
          exact absurd ht (hwaits _ _)

/-- For every capacity and every sequence of calls: what was drained and then what is buffered is what was enqueued without
what was dropped, in order; the buffer keeps to its capacity, the counter counts what is missing, and each event that was
dropped was the oldest one buffered at that moment. -/
theorem audit_queue_is_log (capacity : ℤ) (hcapacity : 1 ≤ capacity) (calls : List QueueCall) :
    let s := queueRun capacity calls
    let l := ledger capacity calls
    l.map (·.1) = enqueued calls ∧
      s.drained ++ s.queue.buf = those (· ≠ .dropped) l ∧
      (s.queue.buf.length : ℤ) ≤ capacity ∧
      s.queue.dropped = (those (· = .dropped) l).length ∧
      (s.drained ++ s.queue.buf).length + s.queue.dropped = (enqueued calls).length ∧
      ∀ (i : ℕ) (ev : AuditEvent), l[i]? = some (ev, .dropped) → ∃ pre e post, calls = pre ++ .enqueue e :: post ∧
        (queueRun capacity pre).queue.buf.head? = some ev ∧ (ledger capacity pre)[i]? = some (ev, .waiting) ∧
        (∀ j < i, ∀ x, (ledger capacity pre)[j]? = some x → x.2 ≠ .waiting) ∧
        (ledger capacity (pre ++ [.enqueue e]))[i]? = some (ev, .dropped) := by
  intro s l
  have hkeeps : Keeps (max capacity 1).toNat s l := keeps_run capacity calls
  obtain ⟨past, hpast, hl⟩ := hkeeps.past
  have hkept : those (· ≠ .dropped) past = s.drained := by
    rw [← hpast.drained, those, those]
    refine congrArg _ (List.filter_congr fun x hx => ?_)
    have hsettled := hpast.settled x hx
    cases hfate : x.2 with
    | taken => rfl
    | waiting => exact absurd hfate hsettled
    | dropped => rfl
  have hout : s.drained ++ s.queue.buf = those (· ≠ .dropped) l := by
    rw [hl, those_append, hkept, waiting, those_map]
    rfl
  have hdropped : s.queue.dropped = (those (· = .dropped) l).length := by
    rw [hl, those_append, waiting, those_map, List.length_append, hpast.dropped]
    rfl
  have hevents : l.map (·.1) = enqueued calls := ledger_events capacity calls
  have hfits := hkeeps.fits
  refine ⟨hevents, hout, by omega, hdropped, ?_, fun i ev => dropped_oldest capacity calls⟩
  rw [hout, hdropped, length_those, ← hevents, List.length_map]

/-- A request for a page. -/
def pageVisit (path : String) : AuditEvent where
  timestamp := 0
  userID := []
  siteID := []
  host := []
  method := Lib.Utf8.ascii "GET"
  path := Lib.Utf8.ascii path
  status := 200
  bytesOut := 0
  decision := Lib.Utf8.ascii "ALLOW"
  reason := []
  clientIP := []
  userAgent := []

theorem audit_queue_is_log_two :
    let calls : List QueueCall := [.enqueue (pageVisit "/a"), .drain 1, .enqueue (pageVisit "/b"), .enqueue (pageVisit "/c"),
      .enqueue (pageVisit "/d")]
    (queueRun 2 calls).drained ++ (queueRun 2 calls).queue.buf = those (· ≠ .dropped) (ledger 2 calls) ∧
      those (· ≠ .dropped) (ledger 2 calls) = [pageVisit "/a", pageVisit "/c", pageVisit "/d"] ∧
      (queueRun 2 calls).queue.dropped = 1 := by
  intro calls
  exact ⟨(audit_queue_is_log 2 (by decide) calls).2.1, by decide +kernel, by decide +kernel⟩

end Captivo.Audit
