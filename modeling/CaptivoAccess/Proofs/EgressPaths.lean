import CaptivoAccess.Proofs.Egress
import CaptivoAccess.Spec.EgressPaths

/-! Which spellings of an upstream are treated alike. The handlers ask the matchers about the
authority as it is written, not about the address that they dial. -/

namespace Captivo.Egress

open Lib.Dns Lib.IpText Lib.HostPort Lib.Separated
open Captivo.Proxy (trimSpace isSpace)

/-! What the matchers look up. -/

/-- The host and the port that are looked up; without a port, the whole authority is the host. -/
def reading (a : Text) : Text × Text := (splitHostPort a).getD (a, [])

def hostPortOf (a : Text) : Option Text :=
  if (reading a).2 = [] then none else some ((reading a).1 ++ ':' :: (reading a).2)

theorem isBlockedTarget_reading (a : Text) : isBlockedTarget a = (parseIP (reading a).1).any isLinkLocal := by
  rw [isBlockedTarget_eq, reading]
  cases splitHostPort a <;> rfl

theorem allowed_iff (m : TargetMatcher) (a : Text) :
    m.allowed a = true ↔ m.isOpen = true ∨ (reading a).1 ∈ m.hosts ∨ (∃ e ∈ m.hostPorts, hostPortOf a = some e) ∨
      ∃ ip, parseIP (reading a).1 = some ip ∧ ∃ n ∈ m.cidrs, n.contains ip = true := by
  have hlooked : (∃ e ∈ m.hostPorts, hostPortOf a = some e) ↔
      (reading a).2 ≠ [] ∧ (reading a).1 ++ ':' :: (reading a).2 ∈ m.hostPorts := by
    rw [hostPortOf]
    split_ifs with hport
    · simp [hport]
    · simp [hport]
  rw [hlooked]
  simp only [TargetMatcher.allowed, Bool.or_eq_true, Bool.and_eq_true, decide_eq_true_eq, Option.any_eq_true, List.any_eq_true,
    or_assoc]
  rfl

/-! Target lists. -/

/-- A text that can be an entry of a list. -/
structure Entry (e : Text) : Prop where
  filled : e ≠ []
  trimmed : trimSpace e = e
  whole : ',' ∉ e
  plain : '/' ∉ e

def HostEntry (e : Text) : Prop := Entry e ∧ splitHostPort e = none

def HostPortEntry (e : Text) : Prop := Entry e ∧ splitHostPort e ≠ none

/-- The names in a matcher are entries of a list. -/
structure Listed (m : TargetMatcher) : Prop where
  hosts : ∀ e ∈ m.hosts, HostEntry e
  hostPorts : ∀ e ∈ m.hostPorts, HostPortEntry e

variable {e : Text}

theorem parseCIDR_plain (h : '/' ∉ e) : parseCIDR e = none := by
  rw [parseCIDR]
  split
  · rfl
  · simp [h]

theorem Listed.addTarget {m m' : TargetMatcher} (h : Listed m) (htrim : trimSpace e = e) (hwhole : ',' ∉ e)
    (hadd : addTarget m e = .ok m') : Listed m' := by
  rw [Egress.addTarget] at hadd
  by_cases hnil : e = []
  · rw [if_pos hnil] at hadd
    cases hadd
    exact h
  rw [if_neg hnil] at hadd
  cases hcidr : parseCIDR e with
  | some n =>
    rw [hcidr] at hadd
    cases hadd
    exact ⟨h.hosts, h.hostPorts⟩
  | none =>
    rw [hcidr] at hadd
    simp only at hadd
    split_ifs at hadd with hslash hsplit
    · cases hadd
      refine ⟨h.hosts, List.forall_mem_append.2 ⟨h.hostPorts, List.forall_mem_singleton.2 ?_⟩⟩
      exact ⟨⟨hnil, htrim, hwhole, hslash⟩, Option.isSome_iff_ne_none.1 hsplit⟩
    · cases hadd
      refine ⟨List.forall_mem_append.2 ⟨h.hosts, List.forall_mem_singleton.2 ?_⟩, h.hostPorts⟩
      exact ⟨⟨hnil, htrim, hwhole, hslash⟩, Option.not_isSome_iff_eq_none.1 hsplit⟩

theorem trimSpace_trimSpace (e : Text) : trimSpace (trimSpace e) = trimSpace e := Lib.HttpHead.trim_trim fun _ h => h

theorem Listed.foldlM {es : List Text} (hes : ∀ e ∈ es, ',' ∉ e) {m m' : TargetMatcher} (h : Listed m)
    (hfold : es.foldlM (fun m e => Egress.addTarget m (trimSpace e)) m = .ok m') : Listed m' := by
  induction es generalizing m with
  | nil =>
    cases hfold
    exact h
  | cons e es ih =>
    obtain ⟨he, hes⟩ := List.forall_mem_cons.1 hes
    rw [List.foldlM_cons] at hfold
    cases hadd : Egress.addTarget m (trimSpace e) with
    | error err =>
      rw [hadd] at hfold
      cases hfold
    | ok next =>
      rw [hadd] at hfold
      exact ih hes (h.addTarget (trimSpace_trimSpace e) (fun hmem => he (Lib.HttpHead.mem_of_mem_trim hmem)) hadd) hfold

theorem listed_empty (isOpen : Bool) : Listed ⟨isOpen, [], [], []⟩ := ⟨List.forall_mem_nil _, List.forall_mem_nil _⟩

theorem listed_parse {targets : Text} {m : TargetMatcher} (h : parseAllowedTargets trimSpace targets = .ok m) : Listed m := by
  rw [parseAllowedTargets] at h
  split_ifs at h
  · cases h
    exact listed_empty true
  · exact (listed_empty false).foldlM (fun e he => not_mem_of_mem_splitOn he) h

theorem listed_policyMatcher (pushed : List Text) : Listed (policyMatcher trimSpace pushed) := by
  refine List.foldlRecOn pushed (applyPolicy trimSpace) (listed_empty true) fun m hm targets _ => ?_
  rw [applyPolicy]
  split
  · exact listed_parse (by assumption)
  · exact hm

theorem parse_one (hfilled : e ≠ []) (htrim : trimSpace e = e) (hwhole : ',' ∉ e) :
    parseAllowedTargets trimSpace e = Egress.addTarget ⟨false, [], [], []⟩ e := by
  rw [parseAllowedTargets, htrim, if_neg hfilled, List.splitOn_eq_singleton hwhole, List.foldlM_cons, htrim]
  cases Egress.addTarget ⟨false, [], [], []⟩ e <;> rfl

theorem parse_host (h : HostEntry e) : parseAllowedTargets trimSpace e = .ok ⟨false, [], [e], []⟩ := by
  obtain ⟨he, hsplit⟩ := h
  rw [parse_one he.filled he.trimmed he.whole, Egress.addTarget, if_neg he.filled, parseCIDR_plain he.plain]
  simp [he.plain, hsplit]

theorem parse_hostPort (h : HostPortEntry e) : parseAllowedTargets trimSpace e = .ok ⟨false, [], [], [e]⟩ := by
  obtain ⟨he, hsplit⟩ := h
  rw [parse_one he.filled he.trimmed he.whole, Egress.addTarget, if_neg he.filled, parseCIDR_plain he.plain]
  simp [he.plain, Option.isSome_iff_ne_none.2 hsplit]

theorem isSpace_of_isAddrChar {c : Char} (h : isAddrChar c = true) : isSpace c = false := by
  have hrange : 46 ≤ c.toNat ∧ c.toNat ≤ 102 := by
    simp only [isAddrChar, Bool.or_eq_true, decide_eq_true_eq] at h
    rcases h with (h | rfl) | rfl
    · rw [hexValue] at h
      split_ifs at h with hdigit hlower hupper
      · rw [Char.isDigit, Bool.and_eq_true, decide_eq_true_eq, decide_eq_true_eq] at hdigit
        exact ⟨Nat.le_trans (by decide : 46 ≤ 48) hdigit.1, Nat.le_trans hdigit.2 (by decide : 57 ≤ 102)⟩
      · rw [Bool.and_eq_true, decide_eq_true_eq, decide_eq_true_eq] at hlower
        exact ⟨Nat.le_trans (by decide : 46 ≤ 97) hlower.1, hlower.2⟩
      · rw [Bool.and_eq_true, decide_eq_true_eq, decide_eq_true_eq] at hupper
        exact ⟨Nat.le_trans (by decide : 46 ≤ 65) hupper.1, Nat.le_trans hupper.2 (by decide : 70 ≤ 102)⟩
      · cases h
    · decide
    · decide
  rw [Bool.eq_false_iff]
  intro hspace
  simp only [isSpace, Bool.or_eq_true, Bool.and_eq_true, decide_eq_true_eq, List.mem_cons, List.not_mem_nil, or_false] at hspace
  omega

theorem parse_address {h : Text} {ip : ℕ} (hip : parseIP h = some ip) :
    ∃ targets, parseAllowedTargets trimSpace targets = .ok ⟨false, [⟨ip, 128⟩], [], []⟩ := by
  have hchars := parseIP_chars hip
  obtain ⟨mask, hmask⟩ : ∃ mask : Text, mask = if (parseIPv4 h).isSome then "32".toList else "128".toList := ⟨_, rfl⟩
  have hdigits : ∀ c ∈ mask, isSpace c = false ∧ c ≠ ',' := by
    rw [hmask]
    split_ifs <;> exact List.forall_iff_forall_mem.1 (by decide)
  have hnoslash : ∀ c ∈ h, decide (c ≠ '/') = true := by
    intro c hc
    refine decide_eq_true fun heq => ?_
    have hchar := hchars c hc
    rw [heq] at hchar
    exact absurd hchar (by decide)
  have htrim : trimSpace (h ++ '/' :: mask) = h ++ '/' :: mask := by
    refine Lib.HttpHead.trim_eq_self fun c hc => ?_
    rcases List.mem_append.1 hc with hc | hc
    · exact isSpace_of_isAddrChar (hchars c hc)
    · rcases List.mem_cons.1 hc with rfl | hc
      · decide
      · exact (hdigits c hc).1
  have hwhole : ',' ∉ h ++ '/' :: mask := by
    intro hmem
    rcases List.mem_append.1 hmem with hc | hc
    · exact absurd (hchars _ hc) (by decide)
    · rcases List.mem_cons.1 hc with hc | hc
      · exact absurd hc (by decide)
      · exact (hdigits _ hc).2 rfl
  have hcidr : parseCIDR (h ++ '/' :: mask) = some ⟨ip, 128⟩ := by
    have hfront : (h ++ '/' :: mask).takeWhile (· ≠ '/') = h := by
      rw [List.takeWhile_append_of_pos hnoslash, List.takeWhile_cons_of_neg (by decide), List.append_nil]
    have hback : ((h ++ '/' :: mask).dropWhile (· ≠ '/')).tail = mask := by
      rw [List.dropWhile_append_of_pos hnoslash, List.dropWhile_cons_of_neg (by decide), List.tail_cons]
    rw [parseCIDR, hfront, hback, hip, hmask]
    cases (parseIPv4 h).isSome <;> simp [ofDigits]
  refine ⟨h ++ '/' :: mask, ?_⟩
  rw [parse_one (by simp) htrim hwhole, Egress.addTarget, if_neg (by simp), hcidr]
  rfl

/-! Pairs of authorities. -/

/-- Two texts, either of which may be missing, are one, or a list can have neither. -/
def Alike (P : Text → Prop) (x x' : Option Text) : Prop := x = x' ∨ (∀ e, x = some e → ¬ P e) ∧ ∀ e, x' = some e → ¬ P e

theorem alike_iff {P : Text → Prop} {x x' : Option Text} : Alike P x x' ↔ ∀ e, P e → (x = some e ↔ x' = some e) := by
  constructor
  · rintro (rfl | ⟨hx, hx'⟩) e he
    · rfl
    · exact iff_of_false (fun h => hx e h he) fun h => hx' e h he
  · intro h
    by_cases hsame : x = x'
    · exact Or.inl hsame
    · refine Or.inr ⟨fun e hx he => hsame ?_, fun e hx' he => hsame ?_⟩
      · rw [(h e he).1 hx, hx]
      · rw [(h e he).2 hx', hx']

/-- The same is looked up for both. -/
structure SameReading (a a' : Text) : Prop where
  address : parseIP (reading a).1 = parseIP (reading a').1
  host : Alike HostEntry (some (reading a).1) (some (reading a').1)
  hostPort : Alike HostPortEntry (hostPortOf a) (hostPortOf a')

theorem SameReading.symm {a a' : Text} (h : SameReading a a') : SameReading a' a where
  address := h.address.symm
  host := alike_iff.2 fun e he => (alike_iff.1 h.host e he).symm
  hostPort := alike_iff.2 fun e he => (alike_iff.1 h.hostPort e he).symm

theorem SameReading.allowed {a a' : Text} (h : SameReading a a') {m : TargetMatcher} (hm : Listed m) (hallowed : m.allowed a = true) :
    m.allowed a' = true := by
  rw [allowed_iff] at hallowed ⊢
  rcases hallowed with hopen | hhost | ⟨e, he, hread⟩ | ⟨ip, hip, hnet⟩
  · exact Or.inl hopen
  · have hsame := (alike_iff.1 h.host _ (hm.hosts _ hhost)).1 rfl
    rw [Option.some.inj hsame]
    exact Or.inr (Or.inl hhost)
  · exact Or.inr (Or.inr (Or.inl ⟨e, he, (alike_iff.1 h.hostPort e (hm.hostPorts e he)).1 hread⟩))
  · exact Or.inr (Or.inr (Or.inr ⟨ip, h.address ▸ hip, hnet⟩))

theorem SameReading.egressAllowed {a a' : Text} (h : SameReading a a') {allow policy : TargetMatcher} (hallow : Listed allow)
    (hpolicy : Listed policy) : egressAllowed allow policy a = egressAllowed allow policy a' := by
  have hsame : ∀ {m : TargetMatcher}, Listed m → m.allowed a = m.allowed a' := fun hm =>
    Bool.eq_iff_iff.2 ⟨h.allowed hm, h.symm.allowed hm⟩
  rw [Egress.egressAllowed, Egress.egressAllowed, isBlockedTarget_reading, isBlockedTarget_reading, h.address, hsame hallow,
    hsame hpolicy]

/-- The verdicts on two authorities are the same for every target list and after all policies. -/
def SameVerdict (a a' : Text) : Prop :=
  ∀ targets allow pushed, parseAllowedTargets trimSpace targets = .ok allow →
    egressAllowed allow (policyMatcher trimSpace pushed) a = egressAllowed allow (policyMatcher trimSpace pushed) a'

namespace SameVerdict

variable {a a' : Text}

theorem blocked (h : SameVerdict a a') : isBlockedTarget a = isBlockedTarget a' := by
  have hopen : ∀ b, egressAllowed openMatcher openMatcher b = !isBlockedTarget b := by
    intro b
    have hallowed : openMatcher.allowed b = true := (allowed_iff openMatcher b).2 (Or.inl rfl)
    rw [egressAllowed, hallowed]
    cases isBlockedTarget b <;> rfl
  have hsame := h [] openMatcher [] rfl
  rw [policyMatcher, List.foldl_nil, hopen, hopen] at hsame
  exact Bool.not_inj hsame

theorem allowed (h : SameVerdict a a') (hblocked : isBlockedTarget a = false) {targets : Text} {m : TargetMatcher}
    (hparse : parseAllowedTargets trimSpace targets = .ok m) : m.allowed a = m.allowed a' := by
  have hopen : ∀ b, openMatcher.allowed b = true := fun b => (allowed_iff openMatcher b).2 (Or.inl rfl)
  have hsame := h targets m [] hparse
  rw [policyMatcher, List.foldl_nil, egressAllowed, egressAllowed, ← h.blocked, hblocked] at hsame
  simpa [hopen] using hsame

theorem address (h : SameVerdict a a') (hblocked : isBlockedTarget a = false) : parseIP (reading a).1 = parseIP (reading a').1 := by
  -- the network of one address tells it from every other host
  have hone : ∀ ip b, (⟨false, [⟨ip, 128⟩], [], []⟩ : TargetMatcher).allowed b = true ↔ parseIP (reading b).1 = some ip := by
    intro ip b
    rw [allowed_iff]
    constructor
    · rintro (hopen | hhost | ⟨e, he, -⟩ | ⟨ip', hip', n, hn, hcontains⟩)
      · cases hopen
      · cases hhost
      · cases he
      · rw [List.mem_singleton.1 hn] at hcontains
        simp only [IPNet.contains, Bool.and_eq_true, decide_eq_true_eq, Nat.sub_self, Nat.pow_zero, Nat.div_one] at hcontains
        rw [hip', hcontains.2]
    · intro hip
      exact Or.inr (Or.inr (Or.inr ⟨ip, hip, _, List.mem_singleton_self _, by simp [IPNet.contains]⟩))
  have hsame : ∀ ip, (∃ b, parseIP b = some ip) → (parseIP (reading a).1 = some ip ↔ parseIP (reading a').1 = some ip) := by
    rintro ip ⟨b, hb⟩
    obtain ⟨targets, hparse⟩ := parse_address hb
    rw [← hone, ← hone, h.allowed hblocked hparse]
  refine Option.ext fun ip => ⟨fun hip => (hsame ip ⟨_, hip⟩).1 hip, fun hip => (hsame ip ⟨_, hip⟩).2 hip⟩

theorem host (h : SameVerdict a a') (hblocked : isBlockedTarget a = false) :
    Alike HostEntry (some (reading a).1) (some (reading a').1) := by
  have hone : ∀ e b, (⟨false, [], [e], []⟩ : TargetMatcher).allowed b = true ↔ some (reading b).1 = some e := by
    intro e b
    rw [allowed_iff]
    simp
  refine alike_iff.2 fun e he => ?_
  rw [← hone, ← hone, h.allowed hblocked (parse_host he)]

theorem hostPort (h : SameVerdict a a') (hblocked : isBlockedTarget a = false) :
    Alike HostPortEntry (hostPortOf a) (hostPortOf a') := by
  have hone : ∀ e b, (⟨false, [], [], [e]⟩ : TargetMatcher).allowed b = true ↔ hostPortOf b = some e := by
    intro e b
    rw [allowed_iff]
    simp
  refine alike_iff.2 fun e he => ?_
  rw [← hone, ← hone, h.allowed hblocked (parse_hostPort he)]

end SameVerdict

theorem sameVerdict_iff (a a' : Text) :
    SameVerdict a a' ↔ (isBlockedTarget a = true ∧ isBlockedTarget a' = true) ∨ SameReading a a' := by
  constructor
  · intro h
    cases hblocked : isBlockedTarget a with
    | true => exact Or.inl ⟨rfl, h.blocked ▸ hblocked⟩
    | false => exact Or.inr ⟨h.address hblocked, h.host hblocked, h.hostPort hblocked⟩
  · rintro (⟨ha, ha'⟩ | h) targets allow pushed hparse
    · rw [egressAllowed, egressAllowed, if_pos ha, if_pos ha']
    · exact h.egressAllowed (listed_parse hparse) (listed_policyMatcher pushed)

/-! The handlers. -/

theorem accept_upstream (u : Upstream) : accept u.toUpstreamURL = some u := dif_pos ⟨u.scheme_eq, u.named⟩

theorem resolveUpstreamTarget_eq (allow policy : TargetMatcher) (u : Upstream) (pathOk headerOk : Bool) :
    resolveUpstreamTarget allow policy ⟨some u.toUpstreamURL, pathOk, headerOk⟩ =
      if egressAllowed allow policy u.host = false then .error "target not allowed"
      else if pathOk = false then .error "invalid path" else .ok u := by
  simp only [resolveUpstreamTarget, Option.bind_some, accept_upstream]

/-- Each handler denies what the matchers deny, whatever the path and the header are. -/
theorem handle_denied (idnaASCII : Text → Text) (allow policy : TargetMatcher) (k : Handler) (u : Upstream) (pathOk headerOk : Bool) :
    handle allow policy idnaASCII k ⟨some u.toUpstreamURL, pathOk, headerOk⟩ = .error "target not allowed" ↔
      egressAllowed allow policy u.host = false := by
  cases hallowed : egressAllowed allow policy u.host with
  | false =>
    refine iff_of_true ?_ rfl
    cases k with
    | dial =>
      rw [handle, handleDial, resolveUpstreamTarget_eq, if_pos hallowed]
      rfl
    | ws =>
      rw [handle, handleWS, resolveUpstreamTarget_eq, if_pos hallowed]
      rfl
    | probe =>
      simp only [handle, handleProbe, Option.bind_some, accept_upstream]
      exact if_pos hallowed
  | true =>
    refine iff_of_false (fun herror => ?_) (by decide)
    have hnot : ¬ egressAllowed allow policy u.host = false := by simp [hallowed]
    cases k with
    | dial =>
      rw [handle, handleDial, resolveUpstreamTarget_eq, if_neg hnot] at herror
      cases pathOk with
      | false => exact absurd (Except.error.inj herror) (by decide)
      | true => cases herror
    | ws =>
      rw [handle, handleWS, resolveUpstreamTarget_eq, if_neg hnot] at herror
      cases pathOk with
      | false => exact absurd (Except.error.inj herror) (by decide)
      | true =>
        cases headerOk with
        | false => exact absurd (Except.error.inj herror) (by decide)
        | true => cases herror
    | probe =>
      simp only [handle, handleProbe, Option.bind_some, accept_upstream] at herror
      rw [if_neg hnot] at herror
      cases herror

/-- For every two upstreams, whatever address they dial: all handlers treat them alike under every target list and after all policies
if and only if the block holds both, or the matchers look up the same for both, up to what no list can have. -/
theorem reachable_by_spelling (idnaASCII : Text → Text) (u u' : Upstream) :
    (∀ targets allow pushed, parseAllowedTargets trimSpace targets = .ok allow → ∀ k k' pathOk pathOk' headerOk headerOk',
      (handle allow (policyMatcher trimSpace pushed) idnaASCII k ⟨some u.toUpstreamURL, pathOk, headerOk⟩ =
          .error "target not allowed" ↔
        handle allow (policyMatcher trimSpace pushed) idnaASCII k' ⟨some u'.toUpstreamURL, pathOk', headerOk'⟩ =
          .error "target not allowed")) ↔
      (isBlockedTarget u.host = true ∧ isBlockedTarget u'.host = true) ∨ SameReading u.host u'.host := by
  rw [← sameVerdict_iff]
  simp only [handle_denied]
  constructor
  · intro h targets allow pushed hparse
    have hsame := h targets allow pushed hparse .dial .dial true true true true
    rwa [← Bool.not_eq_true, ← Bool.not_eq_true, not_iff_not, ← Bool.eq_iff_iff] at hsame
  · intro h targets allow pushed hparse _ _ _ _ _ _
    rw [h targets allow pushed hparse]

/-- What a connector with this target list does with a proxied request to an HTTPS upstream. -/
def proxied (targets host : Text) : Except String Text :=
  match parseAllowedTargets trimSpace targets with
  | .error _ => .error "bad list"
  | .ok allow => handle allow openMatcher id .dial ⟨some ⟨"https".toList, host⟩, true, true⟩

/-- The default port, a bracketed address without a port and a letter in another case are not seen through; nor is a bracketed address
by the block, which then lets it pass. -/
theorem same_address_denied :
    (proxied [] "app.lan".toList = .ok "app.lan:443".toList ∧ proxied [] "app.lan:443".toList = .ok "app.lan:443".toList ∧
      proxied "app.lan:443".toList "app.lan".toList = .error "target not allowed" ∧
      proxied "app.lan:443".toList "app.lan:443".toList = .ok "app.lan:443".toList) ∧
    (proxied [] "[fd00::1]".toList = .ok "[fd00::1]:443".toList ∧
      proxied "fd00::/8".toList "[fd00::1]".toList = .error "target not allowed" ∧
      proxied "fd00::/8".toList "[fd00::1]:443".toList = .ok "[fd00::1]:443".toList) ∧
    proxied "app.lan".toList "app.lan".toList = .ok "app.lan:443".toList ∧
      proxied "app.lan".toList "App.lan".toList = .error "target not allowed" ∧
    proxied [] "[fe80::1]:443".toList = .error "target not allowed" ∧
      proxied [] "[fe80::1]".toList = .ok "[fe80::1]:443".toList := by
  decide +kernel

end Captivo.Egress
