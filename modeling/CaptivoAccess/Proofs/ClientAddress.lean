import CaptivoAccess.Spec.ProxyAudit
import Mathlib.Data.List.TakeWhile

/-! The address in an audit event and the address that access was decided on. The first is
taken from the front of `X-Forwarded-For`, where the client's part stands, the second from
its end. -/

namespace Captivo.ProxyAudit

open Lib.Utf8 Lib.TrimBytes Captivo.Audit

/-! One run. -/

variable {r : ProxyRequest}

theorem clientIP_of_mem_serveAllowed {env : Env} {userID : Bytes} {site : SiteInfo} {ev : AuditEvent}
    (h : ev ∈ serveAllowed env r userID site) : ev.clientIP = firstHop trimSpace r.xForwardedFor := by
  have hevent : ∃ i decision reason status bytes, ev = event env r userID site.siteID i decision reason status bytes := by
    unfold serveAllowed at h
    by_cases hconsent : (site.recordSessions && site.consentRequired && decide (r.urlPath = consentPath)) = true
    · rw [if_pos hconsent] at h
      exact ⟨_, _, _, _, _, List.mem_singleton.1 h⟩
    · rw [if_neg hconsent] at h
      split at h
      · cases h
      · split at h
        · cases h
        · split at h
          · cases hopen : env.webSocket r with
            | none =>
              rw [hopen] at h
              cases h
            | some relay =>
              rw [hopen] at h
              rcases List.mem_pair.1 h with rfl | rfl
              · exact ⟨_, _, _, _, _, rfl⟩
              · exact ⟨_, _, _, _, _, rfl⟩
          · cases hresp : env.upstream r with
            | none =>
              rw [hresp] at h
              cases h
            | some resp =>
              rw [hresp] at h
              rcases List.mem_append.1 h with hopen | hclose
              · exact ⟨_, _, _, _, _, List.mem_singleton.1 ((List.mem_ite_nil_right.1 hopen).2)⟩
              · exact ⟨_, _, _, _, _, List.mem_singleton.1 hclose⟩
  obtain ⟨i, decision, reason, status, bytes, rfl⟩ := hevent
  rfl

/-- Who is asked about: nobody without a session and a site, and else the trusted address. -/
theorem checked_eq (env : Env) (r : ProxyRequest) :
    (serveHTTP env r).checked =
      if env.resolveSession r.caSession = [] then none else (env.siteByHost r.host).map fun _ => trustedClientIP r := by
  simp only [serveHTTP]
  split_ifs with hsession
  · rfl
  · cases env.siteByHost r.host with
    | none => rfl
    | some site =>
      simp only [Option.map_some]
      cases env.checkAccess (env.resolveSession r.caSession) site.siteID (trustedClientIP r) with
      | none => rfl
      | some decision =>
        obtain ⟨allow, reason⟩ := decision
        cases allow with
        | false => rfl
        | true => rfl

/-- Every event has the first entry of the header, and comes after a decision on the trusted address. -/
theorem addresses_of_mem_events {env : Env} {ev : AuditEvent} (h : ev ∈ (serveHTTP env r).events) :
    ev.clientIP = firstHop trimSpace r.xForwardedFor ∧ (serveHTTP env r).checked = some (trustedClientIP r) := by
  simp only [serveHTTP] at h ⊢
  split_ifs at h ⊢ with hsession
  · cases h
  · cases hsite : env.siteByHost r.host with
    | none =>
      rw [hsite] at h
      cases h
    | some site =>
      rw [hsite] at h
      simp only at h ⊢
      cases hcheck : env.checkAccess (env.resolveSession r.caSession) site.siteID (trustedClientIP r) with
      | none =>
        rw [hcheck] at h
        cases h
      | some decision =>
        rw [hcheck] at h
        obtain ⟨allow, reason⟩ := decision
        cases allow with
        | false =>
          rw [List.mem_singleton.1 h]
          exact ⟨rfl, rfl⟩
        | true => exact ⟨clientIP_of_mem_serveAllowed h, rfl⟩

/-! The header. -/

theorem takeWhile_ne_append {bs : Bytes} (more : Bytes) : (bs ++ 44 :: more).takeWhile (· ≠ 44) = bs.takeWhile (· ≠ 44) := by
  induction bs with
  | nil => rfl
  | cons b bs ih =>
    rw [List.cons_append, List.takeWhile_cons, List.takeWhile_cons]
    split_ifs
    · rw [ih]
    · rfl

theorem firstHop_forward (peer : Peer) (supplied : List Bytes) (r : ProxyRequest) :
    firstHop trimSpace (forward peer supplied r).xForwardedFor = (supplied.head?.map (firstHop trimSpace)).getD peer.text := by
  cases supplied with
  | nil =>
    have hall : peer.text.takeWhile (· ≠ 44) = peer.text := by
      refine List.takeWhile_eq_self_iff.2 fun b hb => ?_
      simpa using ne_of_mem_of_not_mem hb peer.no_comma
    exact (congrArg trimSpace hall).trans (trimSpace_graphic peer.ne_nil peer.graphic).1
  | cons first supplied =>
    have hsplit : (forward peer (first :: supplied) r).xForwardedFor =
        first ++ 44 :: (32 :: (supplied.flatMap (· ++ [44, 32]) ++ peer.text)) := by
      simp [forward]
    rw [hsplit, firstHop, takeWhile_ne_append]
    rfl

theorem afterLastComma_eq {bs : Bytes} (front : Bytes) (h : 44 ∉ bs) : afterLastComma bs = bs ∧ afterLastComma (front ++ 44 :: bs) = bs := by
  have hall : bs.reverse.takeWhile (· ≠ 44) = bs.reverse := by
    refine List.takeWhile_eq_self_iff.2 fun b hb => ?_
    simpa using ne_of_mem_of_not_mem (List.mem_reverse.1 hb) h
  refine ⟨by rw [afterLastComma, hall, List.reverse_reverse], ?_⟩
  rw [afterLastComma, List.reverse_append, List.reverse_cons, List.append_assoc, List.singleton_append, takeWhile_ne_append, hall,
    List.reverse_reverse]

/-- The front proxy's entry is the trusted one, whatever the client supplied. -/
theorem trustedClientIP_forward (peer : Peer) (supplied : List Bytes) (r : ProxyRequest) :
    trustedClientIP (forward peer supplied r) = peer.text := by
  obtain ⟨hword, hblank⟩ := trimSpace_graphic peer.ne_nil peer.graphic
  have hsome : (forward peer supplied r).xForwardedFor ≠ [] := by simp [forward, peer.ne_nil]
  rw [trustedClientIP, if_pos hsome]
  rcases List.eq_nil_or_concat supplied with rfl | ⟨front, last, rfl⟩
  · rw [show (forward peer [] r).xForwardedFor = peer.text from rfl, (afterLastComma_eq [] peer.no_comma).1, hword]
  · have hsplit : (forward peer (front.concat last) r).xForwardedFor =
        (front.flatMap (· ++ [44, 32]) ++ last) ++ 44 :: 32 :: peer.text := by
      simp [forward]
    have hcomma : 44 ∉ 32 :: peer.text := by simp [peer.no_comma]
    rw [hsplit, (afterLastComma_eq _ hcomma).2, hblank]

/-! Two runs. -/

/-- The decisions are on the same address, and it is the one in every event of either request. -/
def Agree (env : Env) (r r' : ProxyRequest) : Prop :=
  (serveHTTP env r).checked = (serveHTTP env r').checked ∧
    (∀ ev ∈ (serveHTTP env r).events, some ev.clientIP = (serveHTTP env r).checked) ∧
    (∀ ev ∈ (serveHTTP env r').events, some ev.clientIP = (serveHTTP env r').checked) ∧
    ∀ ev ∈ (serveHTTP env r).events, ∀ ev' ∈ (serveHTTP env r').events, ev.clientIP = ev'.clientIP

/-- The first entry that the client supplied, if any, is the address of the peer. -/
def Honest (peer : Peer) (supplied : List Bytes) : Prop := ∀ first ∈ supplied.head?, firstHop trimSpace first = peer.text

variable {supplied : List Bytes}

theorem honest_iff {peer : Peer} :
    Honest peer supplied ↔ firstHop trimSpace (forward peer supplied r).xForwardedFor = peer.text := by
  rw [firstHop_forward, Honest]
  cases supplied with
  | nil => simp
  | cons first supplied => simp

/-- A manager that refuses everybody. -/
def denying : Env where
  now := fun _ => 0
  resolveSession := fun _ => ascii "u"
  siteByHost := fun _ => some ⟨ascii "s", false, false⟩
  checkAccess := fun _ _ _ => some (false, ascii "no_grant")
  webSocket := fun _ => none
  upstream := fun _ => none
  newSpan := false

theorem denying_event (r : ProxyRequest) : ∃ ev, ev ∈ (serveHTTP denying r).events := ⟨_, List.mem_singleton.2 rfl⟩

theorem honest_of_denied {peer : Peer}
    (h : ∀ ev ∈ (serveHTTP denying (forward peer supplied r)).events,
      some ev.clientIP = (serveHTTP denying (forward peer supplied r)).checked) : Honest peer supplied := by
  obtain ⟨ev, hev⟩ := denying_event (forward peer supplied r)
  obtain ⟨hip, hchecked⟩ := addresses_of_mem_events hev
  have hsame := h ev hev
  rw [hchecked, hip, trustedClientIP_forward] at hsame
  exact honest_iff.2 (Option.some.inj hsame)

theorem events_checked {env : Env} {peer : Peer} (hhonest : Honest peer supplied)
    {ev : AuditEvent} (hev : ev ∈ (serveHTTP env (forward peer supplied r)).events) :
    ev.clientIP = peer.text ∧ (serveHTTP env (forward peer supplied r)).checked = some peer.text := by
  obtain ⟨hip, hchecked⟩ := addresses_of_mem_events hev
  rw [trustedClientIP_forward] at hchecked
  exact ⟨hip.trans (honest_iff.1 hhonest), hchecked⟩

/-- Whatever the rest of the request and the answers to it: two requests that differ in what the client supplied have the same
address in their events, and it is the one that was decided on, if and only if neither client put another address first. -/
theorem audited_address_agrees (peer : Peer) (supplied supplied' : List Bytes) :
    (∀ env r, Agree env (forward peer supplied r) (forward peer supplied' r)) ↔ Honest peer supplied ∧ Honest peer supplied' := by
  constructor
  · intro h
    obtain ⟨-, hleft, hright, -⟩ := h denying ⟨⟨[], [], [], []⟩, [], [], [], [], false⟩
    exact ⟨honest_of_denied hleft, honest_of_denied hright⟩
  · rintro ⟨hhonest, hhonest'⟩ env r
    refine ⟨?_, fun ev hev => ?_, fun ev hev => ?_, fun ev hev ev' hev' => ?_⟩
    · rw [checked_eq, checked_eq, trustedClientIP_forward, trustedClientIP_forward]
      rfl
    · obtain ⟨hip, hchecked⟩ := events_checked hhonest hev
      rw [hip, hchecked]
    · obtain ⟨hip, hchecked⟩ := events_checked hhonest' hev
      rw [hip, hchecked]
    · rw [(events_checked hhonest hev).1, (events_checked hhonest' hev').1]

/-- The front proxy in front of a client at 10.0.0.9. -/
def clientPeer : Peer := ⟨ascii "10.0.0.9", by decide, List.forall_iff_forall_mem.1 (by decide), by decide⟩

/-- A client that sends an entry of its own is written down under it. -/
theorem audited_address_forged :
    let r : ProxyRequest := ⟨⟨ascii "GET", ascii "/", [], []⟩, ascii "h", [], [], [], false⟩
    (serveHTTP denying (forward clientPeer [] r)).events.map (·.clientIP) = [ascii "10.0.0.9"] ∧
      (serveHTTP denying (forward clientPeer [ascii "192.0.2.1"] r)).events.map (·.clientIP) = [ascii "192.0.2.1"] ∧
      (serveHTTP denying (forward clientPeer [ascii "192.0.2.1"] r)).checked = some (ascii "10.0.0.9") := by
  decide +kernel

end Captivo.ProxyAudit
