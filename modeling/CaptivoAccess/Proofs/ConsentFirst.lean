import CaptivoAccess.Lib.Run
import CaptivoAccess.Spec.RecordingConsent
import CaptivoAccess.Proofs.NetworkGate

/-! Recording and consent. The proxy shows no page of a recorded site without the cookie, but
whether the cookie was given to the user who sends it, and whether the event behind it was
stored, it does not know; and the tunnels ask for nothing. What the client and the audit
trail have to do so that every recorded session is acknowledged first is `Honest`. -/

namespace Captivo.Consent

open Lib.Dns Lib.Run Captivo.DataPlane

/-- A client that keeps to the pages and the cookies it was given, and an audit trail that stores every acknowledgement, that of the
proxy before the next page. -/
def Honest (w : World) : Input → Prop
  | .request p r => ∀ ack ∈ recordedStart p r,
      if endpoint r.path = .proxy then r.consent ≠ [] → ack ∈ w.siteCookies ∧ ack ∉ w.queue else ack ∈ w.viewers
  | .page _ _ _ userID siteID cookie => cookie = "1".toList → ⟨userID, siteID⟩ ∈ w.gatewayCookies
  | .accept m scope _ siteID reached appended => reached = true ∧ appended = true ∧ findSite m scope siteID ≠ none
  | .flush n stored => ∀ ack ∈ w.queue.take n, stored ack = true
  | .drop => w.queue = []

instance (w : World) : ∀ input, Decidable (Honest w input)
  | .request p r => inferInstanceAs (Decidable (∀ ack ∈ recordedStart p r,
      if endpoint r.path = .proxy then r.consent ≠ [] → ack ∈ w.siteCookies ∧ ack ∉ w.queue else ack ∈ w.viewers))
  | .page _ _ _ userID siteID cookie => inferInstanceAs (Decidable (cookie = "1".toList → ⟨userID, siteID⟩ ∈ w.gatewayCookies))
  | .accept m scope _ siteID reached appended =>
    inferInstanceAs (Decidable (reached = true ∧ appended = true ∧ findSite m scope siteID ≠ none))
  | .flush n stored => inferInstanceAs (Decidable (∀ ack ∈ w.queue.take n, stored ack = true))
  | .drop => inferInstanceAs (Decidable (w.queue = []))

/-- Every cookie and every session that was shown has its acknowledgement in the log, or on its way there. -/
structure Acknowledged (w : World) : Prop where
  site : ∀ ack ∈ w.siteCookies, ack ∈ w.queue ∨ ack ∈ w.log
  gateway : ∀ ack ∈ w.gatewayCookies, ack ∈ w.log
  viewer : ∀ ack ∈ w.viewers, ack ∈ w.log

/-! One request. -/

section Request

variable {p : Plane} {r : Request} {ack : Ack}

theorem serveProxy_of_admitted {userID : Text} {site : SiteInfo} (h : admitted p r = some (userID, site)) :
    serveProxy p r = serveSite p r site := by
  unfold admitted at h
  unfold serveProxy
  cases hs : resolveSession p r.caSession with
  | none =>
    rw [hs] at h
    cases h
  | some u =>
    rw [hs] at h
    dsimp only at h ⊢
    split_ifs at h ⊢
    cases hb : siteByHost p.manager r.host with
    | none =>
      rw [hb] at h
      cases h
    | some info =>
      rw [hb] at h
      dsimp only at h ⊢
      split at h
      · rename_i hcheck
        rw [hcheck]
        obtain ⟨-, rfl⟩ := Prod.mk.inj (Option.some.inj h)
        rfl
      · cases h

/-- No page of a site that asks for an acknowledgement is proxied without the cookie. -/
theorem consent_of_proxied {site : SiteInfo} (hrec : site.recordSessions = true) (hreq : site.consentRequired = true)
    (h : startsSession (serveSite p r site) .proxy = true) : r.consent ≠ [] := by
  intro hnone
  have hrecording : startsSession (serveRecording p r site) .proxy = false := by
    unfold serveRecording
    rw [hrec]
    split
    · rfl
    · split
      · rfl
      · split
        · split
          · rfl
          · rfl
          · rfl
          · split <;> rfl
        · rfl
  unfold serveSite at h
  rw [hrec, hreq, hnone] at h
  by_cases hpath : r.path = consentPath
  · simp [hpath, startsSession, refuse] at h
  · by_cases hreserved : reserved r.path = true
    · simp [hpath, hreserved, hrecording] at h
    · simp [hpath, hreserved, startsSession, refuse] at h

/-- A session on a web site that asks for an acknowledgement comes with the cookie. -/
theorem consent_of_recordedStart (h : recordedStart p r = some ack) (hproxy : endpoint r.path = .proxy) : r.consent ≠ [] := by
  unfold recordedStart at h
  rw [hproxy] at h
  obtain ⟨hstarts, h⟩ : startsSession (serve p r) .proxy = true ∧ (admitted p r).bind asked = some ack := by
    by_cases hstarts : startsSession (serve p r) .proxy = true
    · rw [if_pos hstarts] at h
      exact ⟨hstarts, h⟩
    · rw [if_neg hstarts] at h
      cases h
  obtain ⟨⟨userID, site⟩, hadmitted, hasked⟩ := Option.bind_eq_some_iff.1 h
  unfold asked at hasked
  split_ifs at hasked with hsite
  rw [Bool.and_eq_true] at hsite
  unfold serve at hstarts
  split_ifs at hstarts
  · cases hstarts
  · rw [hproxy] at hstarts
    dsimp only at hstarts
    rw [serveProxy_of_admitted hadmitted] at hstarts
    exact consent_of_proxied hsite.1 hsite.2 hstarts

end Request

/-- Where an acknowledgement is required, the session is shown at once only to who has the cookie. -/
theorem cookie_of_viewer {m : Manager} {nativeGateway : Bool} {scope siteID cookie : Text}
    (h : (decide (sessionPage m nativeGateway scope siteID cookie = .viewer) && (findSite m scope siteID).any (inForce m scope)) = true) :
    cookie = "1".toList := by
  rw [Bool.and_eq_true, decide_eq_true_eq] at h
  obtain ⟨hpage, hforce⟩ := h
  obtain ⟨site, hsite, hin⟩ := (Option.any_eq_true _ _).1 hforce
  by_contra hne
  have hgate : (inForce m scope site && decide (cookie ≠ "1".toList)) = true := by
    rw [hin, decide_eq_true hne]
    rfl
  simp only [sessionPage, hsite] at hpage
  rw [if_pos hgate] at hpage
  split_ifs at hpage

/-! Sequences of requests. -/

theorem acknowledged_step (w : World) (input : Input) (h : Acknowledged w) (honest : Honest w input) : Acknowledged (step w input) := by
  cases input with
  | request p r =>
    simp only [step]
    split
    · exact h
    · refine ⟨fun ack hack => ?_, h.gateway, h.viewer⟩
      rcases List.mem_append.1 hack with hold | hnew
      · exact (h.site ack hold).imp (List.mem_append_left _) id
      · exact Or.inl (List.mem_append_right _ hnew)
  | page m nativeGateway scope userID siteID cookie =>
    simp only [step]
    split_ifs with hshown
    · refine ⟨h.site, h.gateway, fun ack hack => ?_⟩
      rcases List.mem_append.1 hack with hold | hnew
      · exact h.viewer ack hold
      · rw [List.mem_singleton.1 hnew]
        exact h.gateway _ (honest (cookie_of_viewer hshown))
    · exact h
  | accept m scope userID siteID reached appended =>
    obtain ⟨rfl, rfl, hsite⟩ := honest
    have hsome : (findSite m scope siteID).isSome = true := Option.isSome_iff_ne_none.2 hsite
    have hlog : ∀ acks, (∀ ack ∈ acks, ack ∈ w.log) → ∀ ack ∈ acks ++ [⟨userID, siteID⟩], ack ∈ w.log ++ [⟨userID, siteID⟩] := by
      intro acks hacks ack hack
      rcases List.mem_append.1 hack with hold | hnew
      · exact List.mem_append_left _ (hacks ack hold)
      · exact List.mem_append_right _ hnew
    simp only [step, hsome, Bool.and_self, if_true]
    exact ⟨fun ack hack => (h.site ack hack).imp id (List.mem_append_left _), hlog _ h.gateway, hlog _ h.viewer⟩
  | flush n stored =>
    refine ⟨fun ack hack => ?_, fun ack hack => List.mem_append_left _ (h.gateway ack hack),
      fun ack hack => List.mem_append_left _ (h.viewer ack hack)⟩
    rcases h.site ack hack with hqueue | hlog
    · rw [← List.take_append_drop n w.queue, List.mem_append] at hqueue
      rcases hqueue with hsent | hleft
      · exact Or.inr (List.mem_append_right _ (List.mem_filter.2 ⟨hsent, honest ack hsent⟩))
      · exact Or.inl hleft
    · exact Or.inr (List.mem_append_left _ hlog)
  | drop =>
    have hempty : w.queue = [] := honest
    refine ⟨fun ack hack => Or.inr ((h.site ack hack).resolve_left ?_), h.gateway, h.viewer⟩
    rw [hempty]
    exact List.not_mem_nil

/-- Both sites are recorded, and the tenant requires an acknowledgement. -/
def recordingPlane : Plane :=
  { acmePlane with
    manager := { acmeManager with
      vendorIpAllowlist := fun _ => none, recordingMode := fun _ => .required, recordingConsentRequired := fun _ => true } }

/-- The link of the proxy's page, and a page of the web site with the cookie. -/
def wikiConsent : Request := { wikiRequest with path := consentPath }

def wikiPage : Request := { wikiRequest with consent := "1".toList }

/-- The vendor acknowledges on the web site and on the gate of the remote desktop, and goes on to both. -/
def acknowledgedFirst : List Input :=
  [.request recordingPlane wikiConsent, .flush 1 fun _ => true, .request recordingPlane wikiPage,
    .accept recordingPlane.manager "acme".toList "u1".toList "s1".toList true true]

end Captivo.Consent
