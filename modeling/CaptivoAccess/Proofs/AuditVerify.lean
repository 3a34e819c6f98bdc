import CaptivoAccess.Lib.Run
import CaptivoAccess.Proofs.AuditRetention
import CaptivoAccess.Spec.AuditVerify

/-! The verify route while the chain changes under it. What was read and what is still to
be read make up one piece of the chain, up to the head that was read first; an append does
not touch it, and neither does retention that takes nothing which is still to be read. -/

namespace Captivo.Audit

open Lib.JsonText Lib.HashChain

/-- The rows that the pages to come would find now. -/
def unread (db : TenantDb) (p : Paging) : List AuditRow := db.rows.filter (wanted p.head p.cursorSeq)

section Steps

variable {sha256 : Units → Units} {toISOString : ℤ → Units} {db : TenantDb} {p : Paging}

theorem unread_sorted (h : Retained sha256 toISOString db) (p : Paging) :
    (unread db p).Pairwise fun r r' => r.seq < r'.seq :=
  (retained_sorted h).sublist List.filter_sublist

theorem findPage_eq (h : Retained sha256 toISOString db) : findPage db p.head p.cursorSeq = (unread db p).take PAGE := by
  have hsorted : (unread db p).Pairwise fun r r' => r.seq ≤ r'.seq := (unread_sorted h p).imp Nat.le_of_lt
  rw [findPage, ← unread, hsorted.insertionSort_eq]

/-- What was read and what is still to be read, as one piece of the chain. -/
structure Reads (sha256 : Units → Units) (toISOString : ℤ → Units) (db : TenantDb) (p : Paging) : Prop where
  cursor : p.cursorSeq = p.events.getLast?.map AuditRow.seq
  recomputes : ∀ r ∈ p.events, Recomputes (computeHash sha256 toISOString) r.stored
  below : ∀ head ∈ p.head, head.lastSeq ≤ (db.head.getD genesis).lastSeq
  piece : ∃ before, Linked ChainableEvent.seq before ((p.events ++ unread db p).map AuditRow.stored) ∧
    headAfter ChainableEvent.seq before ((p.events ++ unread db p).map AuditRow.stored) = p.head.getD (db.head.getD genesis)

theorem unread_start (h : Retained sha256 toISOString db) : unread db ⟨db.head, [], none⟩ = db.rows := by
  obtain ⟨before, hl, hh⟩ := retained_linked h
  rw [unread, List.filter_eq_self]
  intro r hr
  cases hd : db.head with
  | none => rfl
  | some head =>
    have hle : r.seq ≤ _ := (linked_seq _ hl (List.mem_map_of_mem hr)).2
    rw [← hh, hd] at hle
    simpa [wanted] using hle

theorem reads_start (h : Retained sha256 toISOString db) : Reads sha256 toISOString db ⟨db.head, [], none⟩ := by
  obtain ⟨before, hl, hh⟩ := retained_linked h
  refine ⟨rfl, List.forall_mem_nil _, ?_, before, ?_, ?_⟩
  · intro head hd
    have hd : db.head = some head := hd
    rw [hd, Option.getD_some]
  · rwa [unread_start h]
  · rw [unread_start h, List.nil_append, ← hh]
    cases db.head <;> rfl

/-! Appends. -/

theorem append_rows (sha256 : Units → Units) (toISOString : ℤ → Units) (db : TenantDb) (users : Units → Option UserNames) (sites : Units → Option Units) (now : ℤ)
    (events : List AuditInput) :
    ∃ new, (chainStep sha256 toISOString db (.append users sites now events)).rows = db.rows ++ new ∧
      Linked ChainableEvent.seq (db.head.getD genesis) (new.map AuditRow.stored) ∧
      (chainStep sha256 toISOString db (.append users sites now events)).head.getD genesis =
        headAfter ChainableEvent.seq (db.head.getD genesis) (new.map AuditRow.stored) := by
  simp only [chainStep, appendAuditEvents_eq, extend]
  split_ifs with hall hnil
  · exact ⟨[], (List.append_nil _).symm, trivial, rfl⟩
  · exact ⟨_, rfl, (chainRows_sound sha256 toISOString _ _).1, headOf_eq _ _⟩
  · exact ⟨[], (List.append_nil _).symm, trivial, rfl⟩

theorem wanted_new (h : Reads sha256 toISOString db p) {new : List AuditRow}
    (hnew : Linked ChainableEvent.seq (db.head.getD genesis) (new.map AuditRow.stored)) :
    new.filter (wanted p.head p.cursorSeq) = if p.head.isSome then [] else new := by
  have habove : ∀ r ∈ new, (db.head.getD genesis).lastSeq < r.seq :=
    fun r hr => (linked_seq _ hnew (List.mem_map_of_mem hr)).1
  cases hp : p.head with
  | some head =>
    have hle := h.below head hp
    rw [Option.isSome_some, if_pos rfl, List.filter_eq_nil_iff]
    intro r hr
    have := habove r hr
    simp only [wanted, Option.all_some, Bool.and_eq_true, decide_eq_true_eq, not_and]
    omega
  | none =>
    obtain ⟨before, hl, hend⟩ := h.piece
    rw [Option.isSome_none, if_neg Bool.false_ne_true, List.filter_eq_self]
    intro r hr
    rw [wanted, Option.all_none, Bool.true_and, h.cursor]
    cases hlast : p.events.getLast? with
    | none => rfl
    | some last =>
      -- the cursor is the number of a row of the chain, and the new rows are behind its head
      have hmem : last ∈ p.events ++ unread db p := List.mem_append_left _ (List.mem_of_getLast? hlast)
      have hle : last.seq ≤ _ := (linked_seq _ hl (List.mem_map_of_mem hmem)).2
      rw [hend, hp, Option.getD_none] at hle
      have := habove r hr
      simp only [Option.map_some, Option.all_some, decide_eq_true_eq]
      omega

theorem reads_append (h : Reads sha256 toISOString db p) (users : Units → Option UserNames) (sites : Units → Option Units)
    (now : ℤ) (events : List AuditInput) :
    Reads sha256 toISOString (chainStep sha256 toISOString db (.append users sites now events)) p := by
  obtain ⟨new, hrows, hnew, hhead⟩ := append_rows sha256 toISOString db users sites now events
  obtain ⟨before, hl, hend⟩ := h.piece
  have hunread := congrArg (List.filter (wanted p.head p.cursorSeq)) hrows
  rw [List.filter_append, wanted_new h hnew] at hunread
  have hgrows := lastSeq_headAfter _ hnew
  rw [← hhead] at hgrows
  refine ⟨h.cursor, h.recomputes, fun head hp => ?_, before, ?_⟩
  · have := h.below head hp
    omega
  · rw [unread, hunread, ← unread]
    cases hp : p.head with
    | some head =>
      rw [hp, Option.getD_some] at hend
      rw [Option.isSome_some, if_pos rfl, List.append_nil]
      exact ⟨hl, hend⟩
    | none =>
      rw [hp, Option.getD_none] at hend
      rw [Option.isSome_none, if_neg Bool.false_ne_true, ← List.append_assoc, List.map_append, linked_append,
        headAfter_append, hend, Option.getD_none]
      exact ⟨⟨hl, hnew⟩, hhead.symm⟩

/-! Retention. -/

theorem retention_rows (db : TenantDb) (now : ℤ) (retentionDays : ℕ) :
    ∃ keep : AuditRow → Bool, (auditRetention db now retentionDays).1 = { db with rows := db.rows.filter keep } ∧
      ((∃ c, keep = fun r => decide (c < r.seq)) ∨ keep = fun _ => true) := by
  simp only [auditRetention]
  split
  · exact ⟨fun _ => true, by rw [List.filter_true], Or.inr rfl⟩
  · exact ⟨_, rfl, Or.inl ⟨_, rfl⟩⟩

/-- Nothing that the reader has still to read goes, once it has read something. -/
def Spared (db : TenantDb) (p : Paging) (now : ℤ) (retentionDays : ℕ) : Prop :=
  p.events ≠ [] → ∀ r ∈ db.rows, wanted p.head p.cursorSeq r = true → r ∈ (auditRetention db now retentionDays).1.rows

theorem reads_retention (hdb : Retained sha256 toISOString db) (h : Reads sha256 toISOString db p) {now : ℤ}
    {retentionDays : ℕ} (hspared : Spared db p now retentionDays) :
    Reads sha256 toISOString (auditRetention db now retentionDays).1 p := by
  obtain ⟨before, hl, hend⟩ := h.piece
  obtain ⟨keep, hkeep, hform⟩ := retention_rows db now retentionDays
  -- what is unread before is unread after, with rows in front of it that nothing was read before
  have hsplit : ∃ gone, unread db p = gone ++ unread (auditRetention db now retentionDays).1 p ∧ (gone = [] ∨ p.events = []) := by
    have hcomm : unread (auditRetention db now retentionDays).1 p = (unread db p).filter keep := by
      rw [hkeep, unread, unread, List.filter_filter, List.filter_filter]
      exact List.filter_congr fun r _ => Bool.and_comm _ _
    by_cases hnil : p.events = []
    · rcases hform with ⟨c, rfl⟩ | rfl
      · obtain ⟨gone, hgone⟩ := exists_append_above AuditRow.seq (unread_sorted hdb p) c
        exact ⟨gone, by rw [hcomm]; exact hgone, Or.inr hnil⟩
      · exact ⟨[], by rw [hcomm, List.filter_true, List.nil_append], Or.inl rfl⟩
    · refine ⟨[], ?_, Or.inl rfl⟩
      rw [hcomm, List.nil_append, eq_comm, List.filter_eq_self]
      intro r hr
      obtain ⟨hmem, hwanted⟩ := List.mem_filter.1 hr
      have hstays := hspared hnil r hmem hwanted
      rw [hkeep] at hstays
      exact (List.mem_filter.1 hstays).2
  have hhead : (auditRetention db now retentionDays).1.head = db.head := by rw [hkeep]
  obtain ⟨gone, hunread, hgone⟩ := hsplit
  refine ⟨h.cursor, h.recomputes, ?_, ?_⟩
  · rw [hhead]
    exact h.below
  · rw [hhead]
    rcases hgone with rfl | hnil
    · rw [List.nil_append] at hunread
      rw [← hunread]
      exact ⟨before, hl, hend⟩
    · rw [hnil, List.nil_append, hunread, List.map_append, linked_append] at hl
      rw [hnil, List.nil_append, hunread, List.map_append, headAfter_append] at hend
      rw [hnil, List.nil_append]
      exact ⟨_, hl.2, hend⟩

/-! Pages. -/

theorem unread_after_page (hdb : Retained sha256 toISOString db) {batch rest : List AuditRow} {last : AuditRow}
    (hunread : unread db p = batch ++ rest) (hlast : batch.getLast? = some last) (events : List AuditRow) :
    unread db { p with events := events, cursorSeq := some last.seq } = rest := by
  have hsorted := unread_sorted hdb p
  have hmem : last ∈ unread db p := by
    rw [hunread]
    exact List.mem_append_left _ (List.mem_of_getLast? hlast)
  obtain ⟨front, rfl⟩ := List.getLast?_eq_some_iff.1 hlast
  have hcursor : ∀ r : AuditRow, wanted p.head (some last.seq) r =
      (wanted p.head p.cursorSeq r && decide (last.seq < r.seq)) := by
    intro r
    have hwanted := (List.mem_filter.1 hmem).2
    cases hc : p.cursorSeq with
    | none => simp [wanted]
    | some c =>
      simp only [wanted, hc, Option.all_some, Bool.and_eq_true, decide_eq_true_eq] at hwanted
      simp only [wanted, Option.all_some, Bool.and_assoc]
      congr 1
      rw [← Bool.decide_and, decide_eq_decide]
      omega
  have hfilter : unread db { p with events := events, cursorSeq := some last.seq } =
      (unread db p).filter fun r => last.seq < r.seq := by
    rw [unread, unread, List.filter_filter]
    exact List.filter_congr fun r _ => (hcursor r).trans (Bool.and_comm _ _)
  rw [hunread, List.append_assoc, List.pairwise_append] at hsorted
  obtain ⟨-, hbehind, hfront⟩ := hsorted
  rw [List.singleton_append, List.pairwise_cons] at hbehind
  rw [hfilter, hunread, List.filter_append, List.filter_append]
  have h1 : front.filter (fun r => last.seq < r.seq) = [] := by
    rw [List.filter_eq_nil_iff]
    intro r hr
    have := hfront r hr last (by simp)
    simp only [decide_eq_true_eq]
    omega
  have h2 : rest.filter (fun r => last.seq < r.seq) = rest := by
    rw [List.filter_eq_self]
    exact fun r hr => decide_eq_true (hbehind.1 r hr)
  rw [h1, h2]
  simp

theorem verdict_ok {p : Paging} (hpiece : ∃ before, Linked ChainableEvent.seq before (p.events.map AuditRow.stored) ∧
      headAfter ChainableEvent.seq before (p.events.map AuditRow.stored) = p.head.getD (db.head.getD genesis))
    (hr : ∀ r ∈ p.events, Recomputes (computeHash sha256 toISOString) r.stored) :
    (verifyChain sha256 toISOString (p.events.map AuditRow.stored) p.head).ok = true := by
  obtain ⟨before, hl, hend⟩ := hpiece
  refine verifyWith_of_linked _ _ hl (List.forall_mem_map.2 hr) fun head hp => ?_
  rw [hend, Option.mem_def.1 hp, Option.getD_some]

theorem recomputes_unread (hdb : Retained sha256 toISOString db) :
    ∀ r ∈ unread db p, Recomputes (computeHash sha256 toISOString) r.stored := by
  obtain ⟨gone, hs⟩ := hdb
  exact fun r hr => hs.recomputes r (List.mem_append_right _ (List.mem_filter.1 hr).1)

/-- What holds of a request at any time. -/
def Undeceived (sha256 : Units → Units) (toISOString : ℤ → Units) (db : TenantDb) : VerifyRoute → Prop
  | .started _ => True
  | .paging p => Reads sha256 toISOString db p
  | .answered response => ∀ result, response = .verified result → result.ok = true

theorem undeceived_page (hdb : Retained sha256 toISOString db) (h : Reads sha256 toISOString db p) :
    Undeceived sha256 toISOString db (VerifyRoute.statement sha256 toISOString db (.paging p)) := by
  have hsplit : unread db p = findPage db p.head p.cursorSeq ++ (unread db p).drop PAGE := by
    rw [findPage_eq hdb, List.take_append_drop]
  have hall : (findPage db p.head p.cursorSeq).length < PAGE → findPage db p.head p.cursorSeq = unread db p := by
    rw [findPage_eq hdb, List.length_take]
    intro hshort
    exact List.take_of_length_le (by omega)
  have hread : ∀ r ∈ p.events ++ unread db p, Recomputes (computeHash sha256 toISOString) r.stored :=
    List.forall_mem_append.2 ⟨h.recomputes, recomputes_unread hdb⟩
  simp only [VerifyRoute.statement]
  split
  · next hlast =>
    -- an empty page: there was nothing left to read
    have hnil := List.getLast?_eq_none_iff.1 hlast
    have hdone : unread db p = [] := by rw [← hall (by simp [hnil, PAGE]), hnil]
    rintro result ⟨⟩
    have hpiece := h.piece
    rw [hdone, List.append_nil] at hpiece
    exact verdict_ok hpiece h.recomputes
  · next last hlast =>
    split_ifs with hshort
    · rintro result ⟨⟩
      have hpiece := h.piece
      rw [← hall hshort] at hpiece hread
      exact verdict_ok hpiece hread
    · have hrest := unread_after_page hdb hsplit hlast (p.events ++ findPage db p.head p.cursorSeq)
      refine ⟨?_, ?_, h.below, ?_⟩
      · simp [List.getLast?_append, hlast]
      · rw [hsplit, ← List.append_assoc, List.forall_mem_append] at hread
        exact hread.1
      · rw [hrest, List.append_assoc, ← hsplit]
        exact h.piece

end Steps

/-- The cron deletes nothing that a request in the middle of its pages has still to read. -/
def Undisturbed (w : VerifyWorld) : VerifyEvent → Prop
  | .chain (.retention now retentionDays) =>
    match w.route with
    | .paging p => Spared w.db p now retentionDays
    | _ => True
  | _ => True

theorem undeceived_step {sha256 : Units → Units} {toISOString : ℤ → Units} {w : VerifyWorld} {e : VerifyEvent}
    (hdb : Retained sha256 toISOString w.db) (h : Undeceived sha256 toISOString w.db w.route) (hok : Undisturbed w e) :
    Undeceived sha256 toISOString (verifyStep sha256 toISOString w e).db (verifyStep sha256 toISOString w e).route := by
  obtain ⟨db, route⟩ := w
  cases e with
  | statement =>
    match route with
    | .started none => exact nofun
    | .started (some false) => exact nofun
    | .started (some true) => exact reads_start hdb
    | .paging p => exact undeceived_page hdb h
    | .answered response => exact h
  | chain s =>
    match route with
    | .started _ => trivial
    | .answered response => exact h
    | .paging p =>
      cases s with
      | append users sites now events => exact reads_append h users sites now events
      | retention now retentionDays => exact reads_retention hdb h hok

/-- Whatever is appended and deleted between the statements of a request, as long as no retention run deletes a row that a
request which has read a page has still to read: the chain is never reported as broken. -/
theorem undisturbed_verify_ok (sha256 : Units → Units) (toISOString : ℤ → Units) (readConsole : Option Bool)
    (events : List VerifyEvent)
    (h : Lib.Run.Meets (verifyStep sha256 toISOString) Undisturbed (verifyStart readConsole) events) :
    ∀ result, (verifyRun sha256 toISOString readConsole events).route = .answered (.verified result) → result.ok = true := by
  have hstep : ∀ w e, (Retained sha256 toISOString w.db ∧ Undeceived sha256 toISOString w.db w.route) → Undisturbed w e →
      Retained sha256 toISOString (verifyStep sha256 toISOString w e).db ∧
        Undeceived sha256 toISOString (verifyStep sha256 toISOString w e).db (verifyStep sha256 toISOString w e).route := by
    rintro w e ⟨hdb, hroute⟩ hok
    refine ⟨?_, undeceived_step hdb hroute hok⟩
    cases e with
    | statement => exact hdb
    | chain s => exact retained_step hdb s
  have hstart : Retained sha256 toISOString (verifyStart readConsole).db ∧
      Undeceived sha256 toISOString (verifyStart readConsole).db (verifyStart readConsole).route := ⟨retained_empty, trivial⟩
  have hinv := Lib.Run.invariant hstep hstart h
  intro result hresult
  have hanswer := hinv.2
  rw [← verifyRun, hresult] at hanswer
  exact hanswer result rfl

def oneEvent : AuditInput :=
  ⟨some 0, none, none, some (units "crm"), some (units "GET"), some (units "/"), some 200, some 0, some (units "ALLOW"), none, none,
    none⟩

/-- Retention runs between the head and the first page. -/
def prunedFirst : List VerifyEvent :=
  [.chain (.append (fun _ => none) (fun _ => none) 0 [oneEvent]), .statement, .chain (.retention 63158400000 730), .statement]

theorem undisturbed_verify_ok_pruned_first :
    (∃ result, (verifyRun id (fun _ => []) (some true) prunedFirst).route = .answered (.verified result)) ∧
    ∀ result, (verifyRun id (fun _ => []) (some true) prunedFirst).route = .answered (.verified result) → result.ok = true :=
  ⟨⟨_, rfl⟩, undisturbed_verify_ok id (fun _ => []) (some true) prunedFirst
    ⟨trivial, trivial, fun hread => absurd rfl hread, trivial, trivial⟩⟩

/-! A chain of more than one page, all of it older than the cutoff. -/

section Pruned

variable {sha256 : Units → Units} {toISOString : ℤ → Units} {db : TenantDb}

theorem retention_all_old {now : ℤ} {retentionDays : ℕ}
    (hold : ∀ r ∈ db.rows, r.timestamp < now - retentionDays * 24 * 60 * 60 * 1000) :
    (auditRetention db now retentionDays).1.rows = [] := by
  have hall : db.rows.filter (fun r => r.timestamp < now - retentionDays * 24 * 60 * 60 * 1000) = db.rows :=
    List.filter_eq_self.2 fun r hr => decide_eq_true (hold r hr)
  simp only [auditRetention, hall]
  split
  · next hmax => simpa using hmax
  · next c hmax =>
    rw [List.filter_eq_nil_iff]
    intro r hr
    have hle := (List.max?_eq_some_iff.1 hmax).2 r.seq (List.mem_map_of_mem hr)
    simpa using hle

/-- The first page is read, the cron deletes every row, and the second page is empty. -/
def betweenPages (now : ℤ) (retentionDays : ℕ) : List VerifyEvent :=
  [.statement, .statement, .chain (.retention now retentionDays), .statement]

theorem betweenPages_route (hdb : Retained sha256 toISOString db) (hlen : PAGE < db.rows.length) {now : ℤ} {retentionDays : ℕ}
    (hold : ∀ r ∈ db.rows, r.timestamp < now - retentionDays * 24 * 60 * 60 * 1000) :
    ((betweenPages now retentionDays).foldl (verifyStep sha256 toISOString) ⟨db, .started (some true)⟩).route =
      .answered (.verified (verifyChain sha256 toISOString ((db.rows.take PAGE).map AuditRow.stored) db.head)) := by
  have hpage : findPage db db.head none = db.rows.take PAGE := by
    have heq := findPage_eq (p := ⟨db.head, [], none⟩) hdb
    rwa [unread_start hdb] at heq
  have hfull : (db.rows.take PAGE).length = PAGE := by
    rw [List.length_take]
    omega
  have hne : db.rows.take PAGE ≠ [] := by
    intro hnil
    rw [hnil] at hfull
    exact absurd hfull (by decide)
  obtain ⟨last, hlast⟩ : ∃ last, (db.rows.take PAGE).getLast? = some last := ⟨_, List.getLast?_eq_some_getLast hne⟩
  have hfirst : VerifyRoute.statement sha256 toISOString db (.paging ⟨db.head, [], none⟩) =
      .paging ⟨db.head, db.rows.take PAGE, some last.seq⟩ := by
    simp [VerifyRoute.statement, hpage, hlast, hfull]
  have hempty : ∀ head cursorSeq, findPage (auditRetention db now retentionDays).1 head cursorSeq = [] := by
    intro head cursorSeq
    simp [findPage, retention_all_old hold]
  simp only [betweenPages, List.foldl_cons, List.foldl_nil, verifyStep]
  rw [show VerifyRoute.statement sha256 toISOString db (.started (some true)) = .paging ⟨db.head, [], none⟩ from rfl, hfirst]
  simp only [VerifyRoute.statement, chainStep, hempty]
  rfl

theorem broken_between_pages (hdb : Retained sha256 toISOString db) (hlen : PAGE < db.rows.length) :
    (verifyChain sha256 toISOString ((db.rows.take PAGE).map AuditRow.stored) db.head).ok = false ∧
    (verifyChain sha256 toISOString ((db.rows.take PAGE).map AuditRow.stored) db.head).reason = some .head_mismatch := by
  obtain ⟨before, hl, hh⟩ := retained_linked hdb
  have hlast := lastSeq_headAfter _ hl
  rw [← hh, List.length_map] at hlast
  obtain ⟨gone, hs⟩ := hdb
  rw [← List.take_append_drop PAGE db.rows, List.map_append, linked_append] at hl
  have hne : (db.rows.take PAGE).map AuditRow.stored ≠ [] := by
    intro hnil
    have hlength := congrArg List.length hnil
    have hpos : 0 < PAGE := by decide
    rw [List.length_map, List.length_take, List.length_nil] at hlength
    omega
  have hpage := lastSeq_headAfter _ hl.1
  rw [headAfter_eq_last _ _ hne, List.length_map, List.length_take] at hpage
  cases hd : db.head with
  | none =>
    have hnil : db.rows = [] := (List.append_eq_nil_iff.1 (hs.started hd)).2
    simp [hnil] at hlen
  | some head =>
    rw [hd, Option.getD_some] at hlast
    refine verifyWith_head_mismatch _ _ hl.1 ?_ hne ?_
    · rw [List.forall_mem_map]
      exact fun r hr => hs.recomputes r (List.mem_append_right _ (List.mem_of_mem_take hr))
    · simp only at hpage
      omega

end Pruned

theorem mem_of_mem_chainRows {sha256 : Units → Units} {toISOString : ℤ → Units} {head : ChainHead} {ns : List NormalizedAuditRow}
    {r : AuditRow} (hr : r ∈ chainRows sha256 toISOString head ns) : r.toNormalizedAuditRow ∈ ns := by
  induction ns generalizing head with
  | nil => exact absurd hr List.not_mem_nil
  | cons n ns ih =>
    rcases List.mem_cons.1 hr with rfl | hr
    · exact List.mem_cons_self
    · exact List.mem_cons_of_mem _ (ih hr)

def manyEvents (n : ℕ) : ChainStep := .append (fun _ => none) (fun _ => none) 0 (List.replicate n oneEvent)

theorem rows_manyEvents {n : ℕ} (hn : n ≠ 0) : (chainStep id (fun _ => []) emptyChain (manyEvents n)).rows =
    chainRows id (fun _ => []) genesis (List.replicate n (normalizeAuditInput emptyChain 0 oneEvent)) := by
  have hstorable : ∀ e ∈ List.replicate n oneEvent, storable (normalizeAuditInput emptyChain 0 e) = true := by
    intro e he
    rw [List.eq_of_mem_replicate he]
    decide
  have hne : List.replicate n oneEvent ≠ [] := by simp [hn]
  simp only [emptyChain] at hstorable
  simp only [manyEvents, chainStep, appendAuditEvents_eq, emptyChain, if_pos hstorable, extend, if_neg hne, List.map_replicate]
  rfl

theorem pruned_is_broken {n : ℕ} (hn : PAGE < n) :
    ∃ result, (verifyRun id (fun _ => []) (some true) (.chain (manyEvents n) :: betweenPages 63158400000 730)).route =
        .answered (.verified result) ∧
      result.ok = false ∧ result.reason = some .head_mismatch := by
  have hrows := rows_manyEvents (Nat.ne_of_gt (Nat.zero_lt_of_lt hn))
  have hdb : Retained id (fun _ => []) (chainStep id (fun _ => []) emptyChain (manyEvents n)) := retained_step retained_empty _
  have hlen : PAGE < (chainStep id (fun _ => []) emptyChain (manyEvents n)).rows.length := by
    rwa [hrows, length_chainRows, List.length_replicate]
  have hold : ∀ r ∈ (chainStep id (fun _ => []) emptyChain (manyEvents n)).rows,
      r.timestamp < 63158400000 - (730 : ℕ) * 24 * 60 * 60 * 1000 := by
    intro r hr
    rw [hrows] at hr
    rw [List.eq_of_mem_replicate (mem_of_mem_chainRows hr)]
    decide
  exact ⟨_, betweenPages_route hdb hlen hold, broken_between_pages hdb hlen⟩

/-- A chain that nobody touched is reported as broken: the cron deletes the second page before it is read. -/
theorem pruned_between_pages_is_broken :
    ∃ result, (verifyRun id (fun _ => []) (some true) (.chain (manyEvents (PAGE + 1)) :: betweenPages 63158400000 730)).route =
        .answered (.verified result) ∧
      result.ok = false ∧ result.reason = some .head_mismatch :=
  pruned_is_broken (Nat.lt_succ_self PAGE)

end Captivo.Audit
