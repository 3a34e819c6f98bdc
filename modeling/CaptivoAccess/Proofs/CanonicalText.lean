import CaptivoAccess.Sanity.CanonicalText
import CaptivoAccess.Sanity.MetadataText
import CaptivoAccess.Spec.AuditLog

/-! Which rows are told apart from every other row by their canonical text. The separator
can be in a text, where it is taken for one between fields, and a field that is missing is
written as an empty one. -/

namespace Captivo.Audit

open Lib.JsonText Lib.JsValue Lib.Separated

/-- A missing value for an empty one, and the other way round. -/
def toggle (o : Option Units) : Option Units := if o.isNone then some [] else none

theorem getD_toggle {o : Option Units} (h : o.getD [] = []) : (toggle o).getD [] = o.getD [] := by
  cases o with
  | none => rfl
  | some t => exact h.symm

theorem toggle_ne (o : Option Units) : toggle o ≠ o := by
  cases o <;> simp [toggle]

theorem eq_of_getD_eq {o o' : Option Units} (hne : o.getD [] ≠ []) (h : o'.getD [] = o.getD []) : o' = o := by
  cases o with
  | none => exact absurd rfl hne
  | some t =>
    cases o' with
    | none => exact absurd h.symm hne
    | some t' => exact congrArg some h

/-! The access chain. -/

/-- A row that the log route can store, at some place of the chain. -/
def Producible (e : ChainableEvent) : Prop :=
  ∃ db now input seq, storable (normalizeAuditInput db now input) = true ∧
    e = (normalizeAuditInput db now input).chainable seq

namespace ChainableEvent

/-- The texts before the numbers of a row, and those behind them. -/
def request (e : ChainableEvent) : List Units := [e.userId.getD [], e.siteId.getD [], e.host, e.method, e.path]

def outcome (e : ChainableEvent) : List Units := [e.reason.getD [], e.clientIp.getD [], e.userAgent.getD []]

def optional (e : ChainableEvent) : List (Option Units) := [e.userId, e.siteId, e.reason, e.clientIp, e.userAgent]

/-- No text holds the separator, and no optional field is missing or empty. -/
def Unambiguous (e : ChainableEvent) : Prop :=
  (∀ t ∈ e.request ++ e.outcome, 31 ∉ t) ∧ ∀ o ∈ e.optional, o.getD [] ≠ []

def numbers (e : ChainableEvent) : List Units := [units (toString e.status), bigintText e.bytesOut, e.decision.text]

theorem canonicalize_eq (iso : ℤ → Units) (e : ChainableEvent) :
    canonicalize iso e =
      [31].intercalate ([bigintText e.seq, iso e.timestamp] ++ (e.request ++ (e.numbers ++ e.outcome))) :=
  joinUS_eq _

end ChainableEvent

theorem decisionText_free (d : Decision) : 31 ∉ d.text := by
  cases d <;> decide

theorem decisionText_injective {d d' : Decision} (h : d.text = d'.text) : d = d' := by
  cases d <;> cases d' <;> first | rfl | exact absurd h (by decide)

section Access

variable {iso : ℤ → Units} {e : ChainableEvent}

theorem not_mem_getD_iff {c : UInt16} {o : Option Units} : c ∉ o.getD [] ↔ ∀ t ∈ o, c ∉ t := by
  cases o <;> simp

theorem storable_iff (n : NormalizedAuditRow) :
    storable n = true ↔ ((∀ t ∈ [n.host, n.method, n.path], 0 ∉ t) ∧
        ∀ o ∈ [n.userId, n.userEmail, n.userName, n.company, n.siteId, n.siteName, n.reason, n.clientIp, n.userAgent],
          0 ∉ o.getD []) ∧
      -2147483648 ≤ n.status ∧ n.status ≤ 2147483647 := by
  have htext : ∀ t : Units, (!hasNul t) = true ↔ 0 ∉ t := by simp [hasNul]
  rw [storable, Bool.and_eq_true, decide_eq_true_eq, List.all_eq_true]
  simp only [htext, not_mem_getD_iff, NormalizedAuditRow.texts, List.forall_mem_append, List.mem_filterMap, id_eq,
    forall_exists_index, and_imp]
  exact and_congr_left' (and_congr_right' ⟨fun h o ho t ht => h t o ho ht, fun h t o ho ht => h o ho t ht⟩)

/-- A row can be stored when its texts are free of U+0000 and its status fits. -/
theorem producible_iff : Producible e ↔
    (∀ t ∈ e.request ++ e.outcome, 0 ∉ t) ∧ -2147483648 ≤ e.status ∧ e.status ≤ 2147483647 := by
  constructor
  · rintro ⟨db, now, input, seq, hstorable, rfl⟩
    obtain ⟨⟨htexts, hopts⟩, hstatus⟩ := (storable_iff _).1 hstorable
    refine ⟨?_, hstatus⟩
    simp only [ChainableEvent.request, ChainableEvent.outcome, NormalizedAuditRow.chainable, List.cons_append,
      List.nil_append, List.forall_mem_cons] at htexts hopts ⊢
    exact ⟨hopts.1, hopts.2.2.2.2.1, htexts.1, htexts.2.1, htexts.2.2.1, hopts.2.2.2.2.2.2.1, hopts.2.2.2.2.2.2.2.1,
      hopts.2.2.2.2.2.2.2.2.1, List.forall_mem_nil _⟩
  · rintro ⟨htexts, hstatus⟩
    -- an event with these fields, where no user and no site has a name
    let db : TenantDb := ⟨fun _ => none, fun _ => none, none, []⟩
    let input : AuditInput := ⟨some e.timestamp, e.userId, e.siteId, some e.host, some e.method, some e.path, some e.status,
      some e.bytesOut, some e.decision.text, e.reason, e.clientIp, e.userAgent⟩
    have hnames : ∀ (o : Option Units) (α : Type), whenTruthy o (fun _ => (none : Option α)) = none := by
      intro o α
      simp [whenTruthy]
    have hdecision : (if e.decision.text = units "DENY" then Decision.DENY else .ALLOW) = e.decision := by
      cases e.decision <;> decide
    refine ⟨db, 0, input, e.seq, ?_, ?_⟩
    · simp only [ChainableEvent.request, ChainableEvent.outcome, List.cons_append, List.nil_append,
        List.forall_mem_cons] at htexts
      obtain ⟨huser, hsite, hhost, hmethod, hpath, hreason, hip, hagent, -⟩ := htexts
      rw [storable_iff]
      simp [normalizeAuditInput, db, input, hnames, huser, hsite, hhost, hmethod, hpath, hreason, hip, hagent, hstatus]
    · simp [normalizeAuditInput, NormalizedAuditRow.chainable, input, hdecision]

/-- Fields that hold neither the separator nor nothing are read off the text. -/
theorem eq_of_canonicalize_eq (hinj : Function.Injective iso) (hiso : ∀ t, 31 ∉ iso t) (he : e.Unambiguous)
    {e' : ChainableEvent} (h : canonicalize iso e' = canonicalize iso e) : e' = e := by
  rw [ChainableEvent.canonicalize_eq, ChainableEvent.canonicalize_eq] at h
  have hfree : ∀ t ∈ [bigintText e.seq, iso e.timestamp] ++ (e.request ++ (e.numbers ++ e.outcome)), 31 ∉ t := by
    obtain ⟨hrequest, houtcome⟩ := List.forall_mem_append.1 he.1
    refine List.forall_mem_append.2 ⟨?_, List.forall_mem_append.2 ⟨hrequest, List.forall_mem_append.2 ⟨?_, houtcome⟩⟩⟩
    · exact List.forall_mem_cons.2 ⟨separator_not_mem_units (isNumeral_nat _), List.forall_mem_singleton.2 (hiso _)⟩
    · refine List.forall_mem_cons.2 ⟨separator_not_mem_units (isNumeral_int _), List.forall_mem_cons.2 ⟨?_, ?_⟩⟩
      · exact separator_not_mem_units (isNumeral_nat _)
      · exact List.forall_mem_singleton.2 (decisionText_free _)
  have heq := eq_of_join_eq hfree (by simp) (by simp [ChainableEvent.request, ChainableEvent.numbers, ChainableEvent.outcome]) h
  simp only [ChainableEvent.request, ChainableEvent.numbers, ChainableEvent.outcome, List.cons_append, List.nil_append,
    List.cons.injEq, and_true] at heq
  obtain ⟨hseq, htime, huser, hsite, hhost, hmethod, hpath, hstatus, hbytes, hdecision, hreason, hip, hagent⟩ := heq
  have hopt := he.2
  simp only [ChainableEvent.optional, List.forall_mem_cons] at hopt
  obtain ⟨ouser, osite, oreason, oip, oagent, -⟩ := hopt
  cases e
  cases e'
  simp only [ChainableEvent.mk.injEq]
  exact ⟨bigintText_injective hseq, hinj htime, eq_of_getD_eq ouser huser, eq_of_getD_eq osite hsite, hhost, hmethod, hpath,
    intText_injective hstatus, bigintText_injective hbytes, decisionText_injective hdecision, eq_of_getD_eq oreason hreason,
    eq_of_getD_eq oip hip, eq_of_getD_eq oagent hagent⟩

theorem free_of_join_eq {c : UInt16} (hc : c ≠ 31) {ts us : List Units} (h : [31].intercalate us = [31].intercalate ts)
    (hts : ∀ t ∈ ts, c ∉ t) : ∀ u ∈ us, c ∉ u := by
  intro u hu hmem
  have hjoin : c ∈ [31].intercalate us := mem_join_of_mem hu hmem
  rw [h] at hjoin
  rcases mem_of_mem_join hjoin with rfl | ⟨t, ht, hmem⟩
  · exact hc rfl
  · exact hts t ht hmem

/-- A row whose texts are the same when they are joined can be stored too, and has the same canonical text. -/
theorem same_canonicalize (iso : ℤ → Units) (hp : Producible e) (e' : ChainableEvent) (hseq : e'.seq = e.seq)
    (htime : e'.timestamp = e.timestamp) (hstatus : e'.status = e.status) (hnumbers : e'.numbers = e.numbers)
    (hrequest : [31].intercalate e'.request = [31].intercalate e.request)
    (houtcome : [31].intercalate e'.outcome = [31].intercalate e.outcome) :
    Producible e' ∧ canonicalize iso e' = canonicalize iso e := by
  constructor
  · rw [producible_iff, List.forall_mem_append, hstatus] at *
    exact ⟨⟨free_of_join_eq (by decide) hrequest hp.1.1, free_of_join_eq (by decide) houtcome hp.1.2⟩, hp.2⟩
  · have hnil : ∀ e : ChainableEvent, e.request ≠ [] ∧ e.outcome ≠ [] := fun e => ⟨List.cons_ne_nil _ _, List.cons_ne_nil _ _⟩
    rw [ChainableEvent.canonicalize_eq, ChainableEvent.canonicalize_eq, hseq, htime, hnumbers,
      join_congr _ _ (hnil e).1 (hnil e').1 hrequest]
    have hend := join_congr ([bigintText e.seq, iso e.timestamp] ++ (e.request ++ e.numbers)) [] (hnil e).2 (hnil e').2 houtcome
    simpa only [List.append_nil, List.append_assoc] using hend

theorem exists_shifted_request (iso : ℤ → Units) (hp : Producible e) (h : ∃ t ∈ e.request, 31 ∈ t) :
    ∃ e', Producible e' ∧ canonicalize iso e' = canonicalize iso e ∧ e' ≠ e := by
  obtain ⟨us, hne, hlen, hjoin⟩ := exists_shift (by simp [ChainableEvent.request]) h
  match us, hlen with
  | [userId, siteId, host, method, path], _ =>
    obtain ⟨hp', hsame⟩ := same_canonicalize iso hp
      { e with userId := some userId, siteId := some siteId, host := host, method := method, path := path }
      rfl rfl rfl rfl hjoin rfl
    exact ⟨_, hp', hsame, fun he => hne (congrArg ChainableEvent.request he)⟩

theorem exists_shifted_outcome (iso : ℤ → Units) (hp : Producible e) (h : ∃ t ∈ e.outcome, 31 ∈ t) :
    ∃ e', Producible e' ∧ canonicalize iso e' = canonicalize iso e ∧ e' ≠ e := by
  obtain ⟨us, hne, hlen, hjoin⟩ := exists_shift (by simp [ChainableEvent.outcome]) h
  match us, hlen with
  | [reason, clientIp, userAgent], _ =>
    obtain ⟨hp', hsame⟩ := same_canonicalize iso hp
      { e with reason := some reason, clientIp := some clientIp, userAgent := some userAgent }
      rfl rfl rfl rfl rfl hjoin
    exact ⟨_, hp', hsame, fun he => hne (congrArg ChainableEvent.outcome he)⟩

theorem exists_toggled (iso : ℤ → Units) (hp : Producible e) (h : ∃ o ∈ e.optional, o.getD [] = []) :
    ∃ e', Producible e' ∧ canonicalize iso e' = canonicalize iso e ∧ e' ≠ e := by
  have hother : ∀ e' : ChainableEvent, e'.seq = e.seq → e'.timestamp = e.timestamp → e'.status = e.status →
      e'.numbers = e.numbers → e'.request = e.request → e'.outcome = e.outcome → e'.optional ≠ e.optional →
      ∃ e', Producible e' ∧ canonicalize iso e' = canonicalize iso e ∧ e' ≠ e := by
    intro e' hseq htime hstatus hnumbers hrequest houtcome hne
    obtain ⟨hp', hsame⟩ := same_canonicalize iso hp e' hseq htime hstatus hnumbers (by rw [hrequest]) (by rw [houtcome])
    exact ⟨e', hp', hsame, fun he => hne (congrArg ChainableEvent.optional he)⟩
  obtain ⟨o, ho, hempty⟩ := h
  have htoggle := getD_toggle hempty
  have hdiff := toggle_ne o
  simp only [ChainableEvent.optional, List.mem_cons, List.not_mem_nil, or_false] at ho
  rcases ho with rfl | rfl | rfl | rfl | rfl
  · exact hother { e with userId := toggle e.userId } rfl rfl rfl rfl (by simp [ChainableEvent.request, htoggle]) rfl
      (by simp [ChainableEvent.optional, hdiff])
  · exact hother { e with siteId := toggle e.siteId } rfl rfl rfl rfl (by simp [ChainableEvent.request, htoggle]) rfl
      (by simp [ChainableEvent.optional, hdiff])
  · exact hother { e with reason := toggle e.reason } rfl rfl rfl rfl rfl (by simp [ChainableEvent.outcome, htoggle])
      (by simp [ChainableEvent.optional, hdiff])
  · exact hother { e with clientIp := toggle e.clientIp } rfl rfl rfl rfl rfl (by simp [ChainableEvent.outcome, htoggle])
      (by simp [ChainableEvent.optional, hdiff])
  · exact hother { e with userAgent := toggle e.userAgent } rfl rfl rfl rfl rfl (by simp [ChainableEvent.outcome, htoggle])
      (by simp [ChainableEvent.optional, hdiff])

theorem access_unambiguous_iff (hinj : Function.Injective iso) (hiso : ∀ t, 31 ∉ iso t) (hp : Producible e) :
    (∀ e', Producible e' → canonicalize iso e' = canonicalize iso e → e' = e) ↔ e.Unambiguous := by
  refine ⟨fun h => ?_, fun he e' _ heq => eq_of_canonicalize_eq hinj hiso he heq⟩
  have hnone : ¬ ∃ e', Producible e' ∧ canonicalize iso e' = canonicalize iso e ∧ e' ≠ e := by
    rintro ⟨e', hp', heq, hne⟩
    exact hne (h e' hp' heq)
  refine ⟨List.forall_mem_append.2 ⟨?_, ?_⟩, ?_⟩
  · exact fun t ht hmem => hnone (exists_shifted_request iso hp ⟨t, ht, hmem⟩)
  · exact fun t ht hmem => hnone (exists_shifted_outcome iso hp ⟨t, ht, hmem⟩)
  · exact fun o ho hempty => hnone (exists_toggled iso hp ⟨o, ho, hempty⟩)

end Access

end Captivo.Audit
