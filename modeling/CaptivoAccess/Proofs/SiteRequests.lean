import CaptivoAccess.Spec.SiteRequests
import Mathlib.Data.List.Forall2

/-! The access decision over a user's grants on a site, and the list of the sites that the user
can ask for. The decision is about the set of the grants; the list leaves out every site
that the decision admits to, but not every site that a request is pending for. -/

namespace Captivo.Access

open Lib.Dns Lib.Threads

/-! The decision. -/

section Decision

variable (intl : Intl) (now : ℤ)

/-- Among the reasons of the grants there is none of a higher priority. -/
structure Highest (grants : List Grant) (reason : Reason) : Prop where
  given : ∃ g ∈ grants, classifyGrant intl g now = reason
  highest : ∀ g ∈ grants, DENY_PRIORITY (classifyGrant intl g now) ≤ DENY_PRIORITY reason

/-- The grant as it is, or after it was revoked or denied. -/
def Ends (g g' : Grant) : Prop := g' = g ∨ ∃ status, status ≠ .ACTIVE ∧ g' = { g with status := status }

variable {intl now}

theorem bestDecision_deny (best : Option Reason) {g : Grant} (grants : List Grant) (hdeny : classifyGrant intl g now ≠ .allow) :
    bestDecision intl now best (g :: grants) = bestDecision intl now
      (if best.all fun b => DENY_PRIORITY b < DENY_PRIORITY (classifyGrant intl g now) then some (classifyGrant intl g now) else best)
      grants := by
  rw [bestDecision, if_neg hdeny]

theorem bestDecision_allow (best : Option Reason) (grants : List Grant) :
    (bestDecision intl now best grants).allow = true ↔ ∃ g ∈ grants, classifyGrant intl g now = .allow := by
  induction grants generalizing best with
  | nil => simp [bestDecision]
  | cons g grants ih =>
    by_cases hallow : classifyGrant intl g now = .allow
    · simp [bestDecision, hallow]
    · rw [bestDecision_deny best grants hallow, ih, List.exists_mem_cons_iff, or_iff_right hallow]

theorem bestDecision_allow_reason {best : Option Reason} {grants : List Grant}
    (h : (bestDecision intl now best grants).allow = true) : (bestDecision intl now best grants).reason = .allow := by
  induction grants generalizing best with
  | nil => cases h
  | cons g grants ih =>
    by_cases hallow : classifyGrant intl g now = .allow
    · rw [bestDecision, if_pos hallow]
    · rw [bestDecision_deny best grants hallow] at h ⊢
      exact ih h

theorem bestDecision_reason {best : Option Reason} {grants : List Grant} (hdeny : ∀ g ∈ grants, classifyGrant intl g now ≠ .allow) :
    (best = none ∧ grants = [] ∧ (bestDecision intl now best grants).reason = .no_grant) ∨
      (best = some (bestDecision intl now best grants).reason ∨
        ∃ g ∈ grants, classifyGrant intl g now = (bestDecision intl now best grants).reason) ∧
      (∀ b ∈ best, DENY_PRIORITY b ≤ DENY_PRIORITY (bestDecision intl now best grants).reason) ∧
      ∀ g ∈ grants, DENY_PRIORITY (classifyGrant intl g now) ≤ DENY_PRIORITY (bestDecision intl now best grants).reason := by
  induction grants generalizing best with
  | nil =>
    cases best with
    | none => exact Or.inl ⟨rfl, rfl, rfl⟩
    | some b => exact Or.inr ⟨Or.inl rfl, fun b' hb' => (Option.some.inj hb') ▸ le_rfl, List.forall_mem_nil _⟩
  | cons g grants ih =>
    obtain ⟨hg, hdeny⟩ := List.forall_mem_cons.1 hdeny
    rw [bestDecision_deny best grants hg]
    refine Or.inr ?_
    split_ifs with hbetter
    · -- the grant's reason takes the place of the best one
      obtain ⟨hnone, -⟩ | ⟨hgiven, hkept, hall⟩ := @ih (some (classifyGrant intl g now)) hdeny
      · cases hnone
      · have hhead := hkept _ rfl
        refine ⟨Or.inr ?_, fun b hb => ?_, List.forall_mem_cons.2 ⟨hhead, hall⟩⟩
        · rcases hgiven with hgiven | ⟨g', hg', hgiven⟩
          · exact ⟨g, List.mem_cons_self, Option.some.inj hgiven⟩
          · exact ⟨g', List.mem_cons_of_mem g hg', hgiven⟩
        · rw [Option.mem_def] at hb
          rw [hb, Option.all_some, decide_eq_true_eq] at hbetter
          exact hbetter.le.trans hhead
    · obtain ⟨hnone, -⟩ | ⟨hgiven, hkept, hall⟩ := @ih best hdeny
      · rw [hnone] at hbetter
        exact absurd rfl hbetter
      · refine ⟨hgiven.imp_right fun ⟨g', hg', h⟩ => ⟨g', List.mem_cons_of_mem g hg', h⟩, hkept, List.forall_mem_cons.2 ⟨?_, hall⟩⟩
        cases best with
        | none => exact absurd rfl hbetter
        | some b =>
          rw [Option.all_some, decide_eq_true_eq, Nat.not_lt] at hbetter
          exact hbetter.trans (hkept b rfl)

theorem evaluateAccess_allow (grants : List Grant) :
    (evaluateAccess intl now (some true) grants).allow = true ↔ ∃ g ∈ grants, classifyGrant intl g now = .allow := by
  rw [evaluateAccess, if_pos rfl, bestDecision_allow]

theorem evaluateAccess_reason {grants : List Grant} (hdeny : (evaluateAccess intl now (some true) grants).allow = false)
    (hne : grants ≠ []) : Highest intl now grants (evaluateAccess intl now (some true) grants).reason := by
  have hnone : ∀ g ∈ grants, classifyGrant intl g now ≠ .allow := by
    intro g hg hallow
    rw [(evaluateAccess_allow grants).2 ⟨g, hg, hallow⟩] at hdeny
    cases hdeny
  rw [evaluateAccess, if_pos rfl]
  obtain ⟨-, hnil, -⟩ | ⟨hgiven, -, hall⟩ := @bestDecision_reason intl now none grants hnone
  · exact absurd hnil hne
  · exact ⟨hgiven.resolve_left fun h => (nomatch h), hall⟩

variable {grants grants' : List Grant}

theorem evaluateAccess_mono (hsub : ∀ g ∈ grants, g ∈ grants')
    (hallow : (evaluateAccess intl now (some true) grants).allow = true) :
    (evaluateAccess intl now (some true) grants').allow = true := by
  rw [evaluateAccess_allow] at hallow ⊢
  obtain ⟨g, hg, h⟩ := hallow
  exact ⟨g, hsub g hg, h⟩

theorem evaluateAccess_allow_reason {grants : List Grant} (hallow : (evaluateAccess intl now (some true) grants).allow = true) :
    (evaluateAccess intl now (some true) grants).reason = .allow := by
  rw [evaluateAccess, if_pos rfl] at hallow ⊢
  exact bestDecision_allow_reason hallow

/-- The same grants in another order and number get the same answer, up to reasons of one priority. -/
theorem evaluateAccess_congr (hsame : ∀ g, g ∈ grants ↔ g ∈ grants') :
    (evaluateAccess intl now (some true) grants).allow = (evaluateAccess intl now (some true) grants').allow ∧
      DENY_PRIORITY (evaluateAccess intl now (some true) grants).reason =
        DENY_PRIORITY (evaluateAccess intl now (some true) grants').reason := by
  have hallow : (evaluateAccess intl now (some true) grants).allow = (evaluateAccess intl now (some true) grants').allow :=
    Bool.eq_iff_iff.2 ⟨evaluateAccess_mono fun g => (hsame g).1, evaluateAccess_mono fun g => (hsame g).2⟩
  refine ⟨hallow, ?_⟩
  cases hdeny : (evaluateAccess intl now (some true) grants).allow with
  | true => rw [evaluateAccess_allow_reason hdeny, evaluateAccess_allow_reason (hallow ▸ hdeny)]
  | false =>
    by_cases hnil : grants = []
    · have hnil' : grants' = [] := List.eq_nil_iff_forall_not_mem.2 fun g hg => by
        rw [hnil] at hsame
        exact absurd ((hsame g).2 hg) List.not_mem_nil
      rw [hnil, hnil']
    · have hnil' : grants' ≠ [] := by
        obtain ⟨g, hg⟩ := List.exists_mem_of_ne_nil grants hnil
        exact List.ne_nil_of_mem ((hsame g).1 hg)
      obtain ⟨⟨g, hg, hgiven⟩, hall⟩ := evaluateAccess_reason hdeny hnil
      obtain ⟨⟨g', hg', hgiven'⟩, hall'⟩ := evaluateAccess_reason (hallow ▸ hdeny) hnil'
      have hle := hall' g ((hsame g).1 hg)
      have hge := hall g' ((hsame g').2 hg')
      rw [hgiven] at hle
      rw [hgiven'] at hge
      exact le_antisymm hle hge

theorem not_allow_of_ended {g : Grant} (h : g.status ≠ .ACTIVE) : classifyGrant intl g now ≠ .allow := by
  cases hstatus : g.status with
  | ACTIVE => exact absurd hstatus h
  | REVOKED => simp [classifyGrant, hstatus]
  | DENIED => simp [classifyGrant, hstatus]

theorem evaluateAccess_ended (hends : List.Forall₂ Ends grants grants')
    (hallow : (evaluateAccess intl now (some true) grants').allow = true) :
    (evaluateAccess intl now (some true) grants).allow = true := by
  rw [evaluateAccess_allow] at hallow ⊢
  obtain ⟨g', hg', h⟩ := hallow
  induction hends with
  | nil => cases hg'
  | @cons g g'' grants grants' hend hends ih =>
    rcases List.mem_cons.1 hg' with rfl | hg'
    · rcases hend with rfl | ⟨status, hstatus, rfl⟩
      · exact ⟨g', List.mem_cons_self, h⟩
      · exact absurd h (not_allow_of_ended hstatus)
    · obtain ⟨g₀, hg₀, h₀⟩ := ih hg'
      exact ⟨g₀, List.mem_cons_of_mem g hg₀, h₀⟩

end Decision

/-! The list. -/

section List

variable {intl : Intl} {t : GrantTable} {sites : List SiteName} {userId : Text}

theorem mem_listSitesForRequest {s : SiteName} :
    s ∈ listSitesForRequest intl t sites userId ↔
      s ∈ sites ∧ ∀ r ∈ t.rows, r.userId = userId → r.siteId = s.id → classifyGrant intl r.toGrant t.now ∈ doneReasons := by
  rw [listSitesForRequest, List.mem_filter]
  refine and_congr_right fun _ => ?_
  rw [decide_eq_true_eq]
  simp only [List.mem_map, List.mem_filter, decide_eq_true_eq, not_exists, not_and, and_imp]
  constructor
  · intro h r hr huser hsite
    by_contra hdone
    exact h r hr huser hdone hsite
  · intro h r hr huser hdone hsite
    exact hdone (h r hr huser hsite)

theorem mem_grantsOn {siteId : Text} {g : Grant} :
    g ∈ grantsOn t userId siteId ↔ ∃ r ∈ t.rows, r.userId = userId ∧ r.siteId = siteId ∧ r.toGrant = g := by
  simp only [grantsOn, List.mem_map, List.mem_filter, Bool.and_eq_true, decide_eq_true_eq, and_assoc]

theorem not_allowed_of_listed {s : SiteName} (h : s ∈ listSitesForRequest intl t sites userId) :
    (evaluateAccess intl t.now (some true) (grantsOn t userId s.id)).allow = false := by
  rw [← Bool.not_eq_true, evaluateAccess_allow]
  rintro ⟨g, hg, hallow⟩
  obtain ⟨r, hr, huser, hsite, rfl⟩ := mem_grantsOn.1 hg
  have hdone := (mem_listSitesForRequest.1 h).2 r hr huser hsite
  rw [hallow] at hdone
  exact absurd hdone (by decide)

end List

/-- Over every list of grants and at every instant: the decision allows if and only if some grant does; it gives a reason of the highest
priority among the grants otherwise; it depends on the set of the grants only; it grows with it and shrinks as grants end; and no site
that it allows is offered to be asked for. -/
theorem access_decision_laws (intl : Intl) (now : ℤ) :
    (∀ grants, (evaluateAccess intl now (some true) grants).allow = true ↔ ∃ g ∈ grants, classifyGrant intl g now = .allow) ∧
    (∀ grants, (evaluateAccess intl now (some true) grants).allow = false →
      if grants = [] then (evaluateAccess intl now (some true) grants).reason = .no_grant
      else Highest intl now grants (evaluateAccess intl now (some true) grants).reason) ∧
    (∀ grants grants', (∀ g, g ∈ grants ↔ g ∈ grants') →
      (evaluateAccess intl now (some true) grants).allow = (evaluateAccess intl now (some true) grants').allow ∧
        DENY_PRIORITY (evaluateAccess intl now (some true) grants).reason =
          DENY_PRIORITY (evaluateAccess intl now (some true) grants').reason) ∧
    (∀ grants grants', (∀ g ∈ grants, g ∈ grants') → (evaluateAccess intl now (some true) grants).allow = true →
      (evaluateAccess intl now (some true) grants').allow = true) ∧
    (∀ grants grants', List.Forall₂ Ends grants grants' → (evaluateAccess intl now (some true) grants).allow = false →
      (evaluateAccess intl now (some true) grants').allow = false) ∧
    ∀ t sites userId, t.now = now → ∀ s ∈ listSitesForRequest intl t sites userId,
      (evaluateAccess intl now (some true) (grantsOn t userId s.id)).allow = false := by
  refine ⟨evaluateAccess_allow, fun grants hdeny => ?_, fun _ _ => evaluateAccess_congr, fun _ _ => evaluateAccess_mono,
    fun grants grants' hends hdeny => ?_, ?_⟩
  · split_ifs with hnil
    · rw [hnil]
      rfl
    · exact evaluateAccess_reason hdeny hnil
  · rw [← Bool.not_eq_true] at hdeny ⊢
    exact fun hallow => hdeny (evaluateAccess_ended hends hallow)
  · rintro t sites userId rfl s hs
    exact not_allowed_of_listed hs

/-! Requests for what is on the list. -/

/-- What the call writes, where it is not refused. -/
def GrantBody.request (body : GrantBody) : NewGrant :=
  ⟨body.userId, body.siteId, body.startsAt, body.endsAt, true, body.schedule, false, some body.userId, body.note⟩

theorem createAccessRequest_alone (body : GrantBody) (t : GrantTable) :
    (createAccessRequest body).alone t =
      if t.rows.any fun r => r.userId = body.userId && r.siteId = body.siteId && pendingWhere r then t else t.create body.request := by
  simp only [createAccessRequest, exec, Thread.alone, GrantStmt.apply, id]
  split_ifs <;> rfl

theorem create_ne (t : GrantTable) (g : NewGrant) : t.create g ≠ t := by
  intro h
  exact absurd (congrArg GrantTable.nextId h) (Nat.succ_ne_self t.nextId)

theorem createAccessRequest_accepts_iff (body : GrantBody) (t : GrantTable) :
    (createAccessRequest body).alone t = t.create body.request ↔
      ∀ r ∈ t.rows, r.userId = body.userId → r.siteId = body.siteId → pendingWhere r = false := by
  rw [createAccessRequest_alone]
  split_ifs with hany
  · refine iff_of_false (create_ne t _).symm fun hnone => ?_
    obtain ⟨r, hr, hpending⟩ := List.any_eq_true.1 hany
    simp only [Bool.and_eq_true, decide_eq_true_eq] at hpending
    rw [hnone r hr hpending.1.1 hpending.1.2] at hpending
    exact Bool.false_ne_true hpending.2
  · refine iff_of_true rfl fun r hr huser hsite => ?_
    simp only [List.any_eq_true, not_exists, not_and, Bool.and_eq_true, decide_eq_true_eq] at hany
    exact Bool.eq_false_iff.2 (hany r hr ⟨huser, hsite⟩)

/-- The time that was asked for is over. -/
def Lapsed (r : GrantRow) (now : ℤ) : Prop := (∀ starts ∈ r.startsAt, starts ≤ now) ∧ ∃ ends ∈ r.endsAt, ends < now

theorem lapsed_of_done {intl : Intl} {r : GrantRow} {now : ℤ} (hpending : pendingWhere r = true)
    (hdone : classifyGrant intl r.toGrant now ∈ doneReasons) : Lapsed r now := by
  simp only [pendingWhere, Bool.and_eq_true, decide_eq_true_eq] at hpending
  have hactive : r.toGrant.status = .ACTIVE := hpending.1.1
  have hopen : (r.toGrant.requiresApproval && r.toGrant.approvedAt.isNone) = true := by
    rw [Bool.and_eq_true]
    exact ⟨hpending.1.2, hpending.2⟩
  rw [classifyGrant, if_neg (by simp [hactive]), if_neg (by simp [hactive])] at hdone
  split_ifs at hdone with hstarts hends
  · exact absurd hdone (by decide)
  · refine ⟨fun starts hs => ?_, ?_⟩
    · by_contra hlate
      refine hstarts ((Option.any_eq_true _ _).2 ⟨starts, hs, decide_eq_true (lt_of_not_ge hlate)⟩)
    · obtain ⟨ends, he, hlt⟩ := (Option.any_eq_true _ _).1 hends
      exact ⟨ends, he, of_decide_eq_true hlt⟩
  · exact absurd hdone (by decide)

/-- For every user, all grants and every instant: each site on the list is accepted when it is asked for next if and only if the user has
no pending request on a site whose time is over, but for sites that another grant keeps off the list. -/
theorem offered_sites_accepted_iff (intl : Intl) (t : GrantTable) (sites : List SiteName) (userId : Text) :
    (∀ s ∈ listSitesForRequest intl t sites userId, ∀ body : GrantBody, body.userId = userId → body.siteId = s.id →
      (createAccessRequest body).alone t = t.create body.request) ↔
    ∀ s ∈ sites, ∀ r ∈ t.rows, r.userId = userId → r.siteId = s.id → pendingWhere r = true → Lapsed r t.now →
      ∃ r' ∈ t.rows, r'.userId = userId ∧ r'.siteId = s.id ∧ classifyGrant intl r'.toGrant t.now ∉ doneReasons := by
  constructor
  · intro haccepted s hs r hr huser hsite hpending _
    by_contra hnone
    have hlisted : s ∈ listSitesForRequest intl t sites userId := by
      refine mem_listSitesForRequest.2 ⟨hs, fun r' hr' huser' hsite' => ?_⟩
      by_contra hdone
      exact hnone ⟨r', hr', huser', hsite', hdone⟩
    have hnot := (createAccessRequest_accepts_iff _ t).1 (haccepted s hlisted ⟨userId, s.id, none, none, none, none, true⟩ rfl rfl) r hr huser hsite
    rw [hpending] at hnot
    cases hnot
  · intro hlapsed s hs body huser hsite
    obtain ⟨hmem, hdone⟩ := mem_listSitesForRequest.1 hs
    refine (createAccessRequest_accepts_iff body t).2 fun r hr hruser hrsite => ?_
    rw [huser] at hruser
    rw [hsite] at hrsite
    by_contra hpending
    rw [Bool.not_eq_false] at hpending
    obtain ⟨r', hr', huser', hsite', hheld⟩ :=
      hlapsed s hmem r hr hruser hrsite hpending (lapsed_of_done hpending (hdone r hr hruser hrsite))
    exact hheld (hdone r' hr' huser' hsite')

/-- A request for access until five. -/
def shortRequest : GrantBody := ⟨"u".toList, "erp".toList, none, some 5, none, none, true⟩

/-- The table at ten, when no one has decided on it. -/
def undecided : GrantTable := (finish (.wait 10)).alone ((createAccessRequest shortRequest).alone (noGrants 0 none))

/-- The site is offered, and the request for it is refused. -/
theorem offered_site_refused :
    listSitesForRequest ⟨fun _ => true, fun _ _ => (none, 0)⟩ undecided [⟨"erp".toList, "ERP".toList⟩] "u".toList =
        [⟨"erp".toList, "ERP".toList⟩] ∧
      (createAccessRequest ⟨"u".toList, "erp".toList, none, none, none, none, true⟩).alone undecided = undecided :=
  ⟨by decide +kernel, rfl⟩

end Captivo.Access
