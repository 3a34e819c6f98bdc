import CaptivoAccess.Spec.Egress

/-! Which spellings of a link-local address are blocked. The block parses the authority,
and what it cannot parse it lets through to the matchers. -/

namespace Captivo.Egress

open Lib.Dns Lib.IpText Lib.HostPort

/-! Addresses. -/

variable {s : Text}

theorem parseIP_eq_some {ip : ℕ} : parseIP s = some ip ↔ parseAddr s = some (ip, []) := by
  rw [parseIP, Option.bind_eq_some_iff]
  constructor
  · rintro ⟨⟨ip', zone⟩, haddr, hzone⟩
    dsimp only at hzone
    split_ifs at hzone with hnil
    cases hzone
    rw [haddr, hnil]
  · intro h
    exact ⟨_, h, rfl⟩

theorem parseIP_chars {ip : ℕ} (h : parseIP s = some ip) : ∀ c ∈ s, isAddrChar c = true := by
  rcases parseAddr_cases (parseIP_eq_some.1 h) with ⟨-, v, hv⟩ | ⟨-, hv⟩ | ⟨front, -, hne, -⟩
  · intro c hc
    rcases (parseIPv4_chars hv).2 c hc with hd | rfl
    · simp [isAddrChar, hexValue_of_isDigit hd]
    · rfl
  · exact parseIPv6_chars hv
  · exact absurd rfl hne

theorem parseIP_none {c : Char} (hc : c ∈ s) (h : isAddrChar c = false) : parseIP s = none := by
  rw [Option.eq_none_iff_forall_ne_some]
  intro ip hip
  rw [parseIP_chars hip c hc] at h
  cases h

theorem head_ne_open (h : ∀ c ∈ s, isAddrChar c = true) : s.head? ≠ some '[' := by
  intro hhead
  exact absurd (h '[' (List.mem_of_head? hhead)) (by decide)

theorem head_append_ne_open {s t : Text} (h : ∀ c ∈ s, isAddrChar c = true) (ht : t.head? ≠ some '[') :
    (s ++ t).head? ≠ some '[' := by
  cases s with
  | nil => exact ht
  | cons c s => exact head_ne_open (s := c :: s) h

/-! The block. -/

theorem isBlockedTarget_eq (a : Text) :
    isBlockedTarget a = (parseIP ((splitHostPort a).elim a Prod.fst)).any isLinkLocal := by
  unfold isBlockedTarget
  cases splitHostPort a <;> rfl

theorem denied_iff (trimSpace : Text → Text) (relay : Relay) {a h : Text} (hhost : relay.host a = some h) :
    (∀ allow pushed, egressAllowed allow (policyMatcher trimSpace pushed) a = false ∧
      dial relay allow (policyMatcher trimSpace pushed) a = .error "target not allowed") ↔ isBlockedTarget a = true := by
  constructor
  · intro hdenied
    by_contra hblocked
    have hopen := (hdenied openMatcher []).1
    rw [egressAllowed, if_neg hblocked] at hopen
    cases hsplit : splitHostPort a <;> simp [policyMatcher, openMatcher, TargetMatcher.allowed, hsplit] at hopen
  · intro hblocked allow pushed
    have hfalse : egressAllowed allow (policyMatcher trimSpace pushed) a = false := by rw [egressAllowed, if_pos hblocked]
    refine ⟨hfalse, ?_⟩
    simp [dial, hhost, hfalse]

/-- The spellings that the block sees through: no zone, a port behind the brackets, and where a colon of the host could be
the one before the port, an address all the same. -/
def Plain (a h zone : Text) : Prop :=
  zone = [] ∧ a ≠ '[' :: h ++ [']'] ∧
    (':' ∈ h → a.head? ≠ some '[' → ∃ ip, parseIP a = some ip ∧ isLinkLocal ip = true)

theorem colons_of_parseIP {ip : ℕ} (h : parseIP s = some ip) : ':' ∉ s ∨ TwoColons s := by
  rcases parseAddr_cases (parseIP_eq_some.1 h) with ⟨-, v, hv⟩ | ⟨-, hv⟩ | ⟨front, -, hne, -⟩
  · refine Or.inl fun hmem => ?_
    rcases (parseIPv4_chars hv).2 ':' hmem with hd | hd
    · exact absurd hd (by decide)
    · exact absurd hd (by decide)
  · exact Or.inr (parseIPv6_colons hv)
  · exact absurd rfl hne

/-! Hosts. -/

theorem host_cases {relay : Relay} {a h : Text} (hhost : relay.host a = some h) :
    Spells h a ∨ ∃ port, splitHostPort a = some (h, port) := by
  cases relay with
  | upstream =>
    rw [Relay.host] at hhost
    split_ifs at hhost
    cases hhost
    exact Or.inl (spells_hostname a)
  | address =>
    obtain ⟨⟨host, port⟩, hsplit, rfl⟩ := Option.map_eq_some_iff.1 hhost
    exact Or.inr ⟨port, (Option.filter_eq_some_iff.1 hsplit).1⟩

section Zone

variable {front zone t : Text} {ip : ℕ}

theorem splitHostPort_zone (hfront : parseIPv6 front = some ip) : splitHostPort (front ++ '%' :: zone ++ t) = none := by
  rw [List.append_assoc]
  refine splitHostPort_twoColons (head_append_ne_open (parseIPv6_chars hfront) (by simp)) ?_
  exact TwoColons.append (parseIPv6_colons hfront) _

/-- The host that is taken out of brackets has the zone's sign in it, whatever the zone is. -/
theorem percent_mem_bracketed (hfront : parseIPv6 front = some ip) {h port : Text}
    (hsplit : splitHostPort ('[' :: (front ++ '%' :: zone) ++ ']' :: t) = some (h, port)) : '%' ∈ h := by
  have hopen : ∀ c ∈ front, decide (c ≠ ']') = true := by
    intro c hc
    refine decide_eq_true fun heq => ?_
    have hchar := parseIPv6_chars hfront c hc
    rw [heq] at hchar
    exact absurd hchar (by decide)
  rw [(splitHostPort_bracketed rfl hsplit).1, List.cons_append, List.tail_cons, List.append_assoc,
    List.takeWhile_append_of_pos hopen, List.cons_append, List.takeWhile_cons_of_pos (by decide)]
  exact List.mem_append_right _ List.mem_cons_self

end Zone

theorem not_blocked_of_zone {relay : Relay} {a h zone : Text} {ip : ℕ} (hhost : relay.host a = some h)
    (haddr : parseAddr h = some (ip, zone)) (hzone : zone ≠ []) : isBlockedTarget a = false := by
  have hlooked : '%' ∈ (splitHostPort a).elim a Prod.fst := by
    rcases parseAddr_cases haddr with ⟨hnil, -⟩ | ⟨hnil, -⟩ | ⟨front, rfl, -, hfront⟩
    · exact absurd hnil hzone
    · exact absurd hnil hzone
    · rcases host_cases hhost with ⟨t, -, rfl | rfl⟩ | ⟨port, hsplit⟩
      · rw [splitHostPort_zone hfront]
        simp
      · cases hsplit : splitHostPort ('[' :: (front ++ '%' :: zone) ++ ']' :: t) with
        | none => simp
        | some p => exact percent_mem_bracketed hfront hsplit
      · rw [hsplit]
        simp
  rw [isBlockedTarget_eq, parseIP_none hlooked (by decide)]
  rfl

section NoZone

variable {h a : Text} {ip : ℕ}

theorem blocked_bare (hip : parseIP h = some ip) (hlink : isLinkLocal ip = true) : isBlockedTarget h = true := by
  have hsplit : splitHostPort h = none := by
    rcases colons_of_parseIP hip with hnone | htwo
    · exact splitHostPort_no_port hnone
    · exact splitHostPort_twoColons (head_ne_open (parseIP_chars hip)) htwo
  rw [isBlockedTarget_eq, hsplit, Option.elim_none, hip]
  exact hlink

theorem blocked_of_split {port : Text} (hip : parseIP h = some ip) (hlink : isLinkLocal ip = true)
    (hsplit : splitHostPort a = some (h, port)) : isBlockedTarget a = true := by
  rw [isBlockedTarget_eq, hsplit, Option.elim_some, hip]
  exact hlink

theorem plain_of_split {port : Text} (hsplit : splitHostPort a = some (h, port)) : Plain a h [] := by
  by_cases hopen : a.head? = some '['
  · obtain ⟨-, heq⟩ := splitHostPort_bracketed hopen hsplit
    refine ⟨rfl, fun hclosed => ?_, fun _ hne => absurd hopen hne⟩
    rw [heq] at hclosed
    simp at hclosed
  · refine ⟨rfl, fun hclosed => hopen (by rw [hclosed]; rfl), fun hcolon _ => ?_⟩
    exact absurd hcolon (splitHostPort_bare hopen hsplit).2

theorem blocked_bare_port {port : Text} (hip : parseIP h = some ip) (hlink : isLinkLocal ip = true)
    (hport : port.all Char.isDigit = true) : isBlockedTarget (h ++ ':' :: port) = true ↔ Plain (h ++ ':' :: port) h [] := by
  have hchars := parseIP_chars hip
  rcases colons_of_parseIP hip with hnone | htwo
  · have hsplit : splitHostPort (h ++ ':' :: port) = some (h, port) :=
      splitHostPort_simple hnone (fun hmem => absurd (hchars _ hmem) (by decide)) (fun hmem => absurd (hchars _ hmem) (by decide))
        hport
    exact iff_of_true (blocked_of_split hip hlink hsplit) (plain_of_split hsplit)
  · -- the block reads the port as part of the address
    have hhead := head_append_ne_open hchars (t := ':' :: port) (by simp)
    have hcolon : ':' ∈ h := by
      obtain ⟨front, last, hcut, -⟩ := htwo
      rw [(cutLast_eq_some hcut).1]
      simp
    rw [isBlockedTarget_eq, splitHostPort_twoColons hhead (htwo.append _), Option.elim_none, Option.any_eq_true]
    constructor
    · intro hread
      exact ⟨rfl, fun hclosed => hhead (by rw [hclosed]; rfl), fun _ _ => hread⟩
    · intro hplain
      exact hplain.2.2 hcolon hhead

theorem not_blocked_closed (hip : parseIP h = some ip) : isBlockedTarget ('[' :: h ++ [']']) = false := by
  have hclose : ']' ∉ h := fun hmem => absurd (parseIP_chars hip _ hmem) (by decide)
  have hnone : parseIP ('[' :: h ++ [']']) = none := parseIP_none List.mem_cons_self (by decide)
  rw [isBlockedTarget_eq, splitHostPort_closed hclose, Option.elim_none, hnone]
  rfl

end NoZone

/-- Every spelling of a link-local host is denied, by every matcher and after every policy, exactly when it is one that the
block sees through. -/
theorem link_local_denied_iff (trimSpace : Text → Text) (relay : Relay) (a h zone : Text) (ip : ℕ)
    (hhost : relay.host a = some h) (haddr : parseAddr h = some (ip, zone)) (hlink : isLinkLocal ip = true) :
    (∀ allow pushed, egressAllowed allow (policyMatcher trimSpace pushed) a = false ∧
      dial relay allow (policyMatcher trimSpace pushed) a = .error "target not allowed") ↔ Plain a h zone := by
  rw [denied_iff trimSpace relay hhost]
  by_cases hzone : zone = []
  · subst hzone
    have hip : parseIP h = some ip := parseIP_eq_some.2 haddr
    rcases host_cases hhost with ⟨t, rfl | ⟨port, rfl, hport⟩, rfl | rfl⟩ | ⟨port, hsplit⟩
    · rw [List.append_nil]
      have hne : h ≠ '[' :: h ++ [']'] := by
        intro heq
        have hlen := congrArg List.length heq
        simp only [List.length_append, List.length_cons] at hlen
        omega
      exact iff_of_true (blocked_bare hip hlink) ⟨rfl, hne, fun _ _ => ⟨ip, hip, hlink⟩⟩
    · rw [not_blocked_closed hip]
      exact iff_of_false (by decide) fun hplain => hplain.2.1 rfl
    · exact blocked_bare_port hip hlink hport
    · have hopen : '[' ∉ h := fun hmem => absurd (parseIP_chars hip _ hmem) (by decide)
      have hclose : ']' ∉ h := fun hmem => absurd (parseIP_chars hip _ hmem) (by decide)
      have hsplit := splitHostPort_port hopen hclose hport
      exact iff_of_true (blocked_of_split hip hlink hsplit) (plain_of_split hsplit)
    · exact iff_of_true (blocked_of_split hip hlink hsplit) (plain_of_split hsplit)
  · rw [not_blocked_of_zone hhost haddr hzone]
    exact iff_of_false (by decide) fun hplain => hzone hplain.1

theorem link_local_denied_iff_metadata :
    Plain "169.254.169.254:80".toList "169.254.169.254".toList [] ∧
    ∀ allow pushed, egressAllowed allow (policyMatcher id pushed) "169.254.169.254:80".toList = false ∧
      dial .upstream allow (policyMatcher id pushed) "169.254.169.254:80".toList = .error "target not allowed" := by
  have hplain : Plain "169.254.169.254:80".toList "169.254.169.254".toList [] :=
    ⟨rfl, by decide, fun hcolon => absurd hcolon (by decide)⟩
  exact ⟨hplain, (link_local_denied_iff id .upstream _ _ _ (mapped 0xa9fea9fe) (by decide +kernel) (by decide +kernel)
    (by decide +kernel)).2 hplain⟩

/-- In brackets without a port, with a zone, and without brackets before a port, the metadata address and a link-local
one are dialed. -/
theorem link_local_is_dialed :
    ((parseAddr "::ffff:169.254.169.254".toList).any fun p => isLinkLocal p.1) = true ∧
    ((parseAddr "fe80::1%eth0".toList).any fun p => isLinkLocal p.1) = true ∧
    dial .upstream openMatcher (policyMatcher id []) "[::ffff:169.254.169.254]".toList =
      .ok "::ffff:169.254.169.254".toList ∧
    dial .address openMatcher (policyMatcher id []) "[fe80::1%eth0]:389".toList = .ok "fe80::1%eth0".toList ∧
    dial .upstream openMatcher (policyMatcher id []) "::ffff:169.254.169.254:80".toList =
      .ok "::ffff:169.254.169.254".toList := by
  decide +kernel

end Captivo.Egress
