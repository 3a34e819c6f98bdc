import CaptivoAccess.Spec.ReturnTo

/-! A browser that resolves what the proxy answers after consent, or what the manager hands
out after signing in, stays where it should unless the text begins with a slash and, tabs and
newlines aside, with a slash or a backslash after it. The checks look at the text as it is,
the browser does not. -/

namespace Captivo.ReturnTo

open Lib.Dns (Text)
open Lib.HttpHead (trim)
open Lib.Utf8 (Bytes ascii)
open Lib.WhatwgUrl

variable (hosts : HostParser)

/-! What is sent begins with a slash. -/

theorem consentReturnTo_cases (rt : Bytes) :
    (∃ t, consentReturnTo rt = 47 :: t) ∧ ¬ [47, 47] <+: consentReturnTo rt ∧
      ∀ b ∈ consentReturnTo rt, b ∈ rt ∨ b = 47 := by
  rw [consentReturnTo]
  split_ifs with h
  · obtain ⟨hone, htwo⟩ := Bool.and_eq_true_iff.1 h
    obtain ⟨t, ht⟩ := List.isPrefixOf_iff_prefix.1 hone
    refine ⟨⟨t, ht.symm⟩, fun hpre => ?_, fun b hb => Or.inl hb⟩
    rw [show (ascii "//").isPrefixOf rt = true from List.isPrefixOf_iff_prefix.2 hpre] at htwo
    cases htwo
  · exact ⟨⟨[], rfl⟩, by decide, fun b hb => Or.inr (List.mem_singleton.1 hb)⟩

theorem redirectURL_cons (t : Bytes) : ∃ t', redirectURL (47 :: t) = 47 :: t' := by
  simp only [redirectURL]
  split_ifs
  · exact ⟨_, rfl⟩
  · exact ⟨_, rfl⟩
  · exact ⟨t, rfl⟩

theorem headerText_cons (v : Bytes) :
    ∃ a b, headerText (47 :: v) = '/' :: a ∧ (v.map fun b => Char.ofNat b.toNat).map newlineToSpace = a ++ b :=
  Lib.HttpHead.trim_cons rfl _

theorem hexEscapeNonASCII_cons (v : Bytes) : hexEscapeNonASCII (47 :: v) = 47 :: hexEscapeNonASCII v := rfl

theorem consentLocation_cons (rt : Bytes) : ∃ t, consentLocation rt = '/' :: t := by
  obtain ⟨⟨t, ht⟩, -⟩ := consentReturnTo_cases rt
  obtain ⟨t', ht'⟩ := redirectURL_cons t
  obtain ⟨a, -, ha, -⟩ := headerText_cons (hexEscapeNonASCII t')
  rw [consentLocation, ht, ht', hexEscapeNonASCII_cons, ha]
  exact ⟨a, rfl⟩

theorem consentLocation_origin (request : Url) {rt : Bytes} (h : namesAuthority (consentLocation rt) = false) :
    ∃ u, parse hosts (some request) (consentLocation rt) = .special u ∧ u.origin = request.origin := by
  obtain ⟨t, ht⟩ := consentLocation_cons rt
  rw [ht] at h ⊢
  exact parse_slash_origin hosts request h

/-! The manager's targets: a text that begins with one slash, or a URL of the cookie domain. -/

theorem suffixOf_eq (domain : Text) : suffixOf domain = '.' :: bareDomain domain := by
  rw [suffixOf, bareDomain]
  split_ifs with h
  · obtain ⟨t, rfl⟩ := List.head?_eq_some_iff.1 h
    rfl
  · rfl

/-- The configured cookie domain, without the dot it may begin with. -/
def cookieDomainOf (cookieDomain : Option Text) : Text := bareDomain (trim isWhitespace (cookieDomain.getD []))

theorem safeReturnTo_cases (cookieDomain raw : Option Text) :
    (∃ t, safeReturnTo hosts cookieDomain raw = '/' :: t) ∨
      ∃ u : Url, u.WellFormed hosts ∧ u.scheme = .https ∧ Within (cookieDomainOf cookieDomain) u ∧
        safeReturnTo hosts cookieDomain raw = u.serialize := by
  have hroot : ∃ t, "/".toList = '/' :: t := ⟨[], rfl⟩
  cases raw with
  | none => exact Or.inl hroot
  | some raw =>
    simp only [safeReturnTo]
    split_ifs with hempty hpath hdomain
    · exact Or.inl hroot
    · obtain ⟨t, ht⟩ := List.isPrefixOf_iff_prefix.1 (Bool.and_eq_true_iff.1 hpath).1
      exact Or.inl ⟨t, ht.symm⟩
    · exact Or.inl hroot
    · split
      · next u hu =>
        split_ifs with hwithin
        · simp only [Bool.and_eq_true, Bool.or_eq_true, decide_eq_true_eq, suffixOf_eq, List.isSuffixOf_iff_suffix] at hwithin
          exact Or.inr ⟨u, parse_wellFormed hu, hwithin.1, hwithin.2, rfl⟩
        · exact Or.inl hroot
      · exact Or.inl hroot

theorem safeReturnTo_origin (manager : Url) {cookieDomain raw : Option Text}
    (h : namesAuthority (safeReturnTo hosts cookieDomain raw) = false) :
    ∃ u, parse hosts (some manager) (safeReturnTo hosts cookieDomain raw) = .special u ∧
      (u.origin = manager.origin ∨ u.scheme = .https ∧ Within (cookieDomainOf cookieDomain) u) := by
  obtain ⟨t, ht⟩ | ⟨v, hv, hhttps, hwithin, ht⟩ := safeReturnTo_cases hosts cookieDomain raw
  · rw [ht] at h ⊢
    obtain ⟨u, hu, horigin⟩ := parse_slash_origin hosts manager h
    exact ⟨u, hu, Or.inl horigin⟩
  · -- the serialized URL is read back with the scheme, host and port that were looked at
    obtain ⟨u, hu, horigin⟩ := parse_serialize (some manager) hv
    simp only [Url.origin, Prod.mk.injEq] at horigin
    obtain ⟨hscheme, hhost, hport⟩ := horigin
    refine ⟨u, by rw [ht, hu], Or.inr ⟨hscheme.trans hhttps, ?_⟩⟩
    have hstring : u.hostString = v.hostString := by rw [Url.hostString, Url.hostString, Url.portText, Url.portText, hhost, hport]
    rwa [Within, hstring]

/-! What has no backslash, no tab and no newline in it is not taken for another authority. -/

theorem mem_foldl_cleanStep {segments out : List Bytes} {s : Bytes} (h : s ∈ segments.foldl cleanStep out) :
    s ∈ out ∨ s ≠ [] ∧ s ∈ segments := by
  induction segments generalizing out with
  | nil => exact Or.inl h
  | cons t segments ih =>
    obtain hs | ⟨hne, hs⟩ := ih h
    · rw [cleanStep] at hs
      split_ifs at hs with hskip hup
      · exact Or.inl hs
      · exact Or.inl (List.mem_of_mem_dropLast hs)
      · obtain hs | hs := List.mem_append.1 hs
        · exact Or.inl hs
        · rw [List.mem_singleton.1 hs]
          exact Or.inr ⟨fun ht => hskip (Or.inl ht), List.mem_cons_self⟩
    · exact Or.inr ⟨hne, List.mem_cons_of_mem _ hs⟩

theorem mem_cleanPath {p : Bytes} {b : UInt8} (h : b ∈ cleanPath p) : b ∈ p ∨ b = 47 := by
  obtain rfl | h := List.mem_cons.1 h
  · exact Or.inr rfl
  · obtain rfl | ⟨s, hs, hb⟩ := Lib.Separated.mem_of_mem_join h
    · exact Or.inr rfl
    · obtain hs | ⟨-, hs⟩ := mem_foldl_cleanStep hs
      · exact absurd hs List.not_mem_nil
      · exact Or.inl (Lib.Separated.mem_of_mem_mem_splitOn hs hb)

/-- A cleaned path is the root, or something else than a slash follows its slash. -/
theorem cleanPath_cases (p : Bytes) : cleanPath p = [47] ∨ ∃ b t, b ≠ 47 ∧ cleanPath p = 47 :: b :: t := by
  have hsegments : ∀ s ∈ (p.splitOn 47).foldl cleanStep [], s ∈ [] ∨ s ≠ [] ∧ s ∈ p.splitOn 47 := fun s hs =>
    mem_foldl_cleanStep hs
  rw [cleanPath]
  cases hout : (p.splitOn 47).foldl cleanStep [] with
  | nil => exact Or.inl rfl
  | cons s rest =>
    obtain hs | ⟨hne, hs⟩ := hsegments s (by rw [hout]; exact List.mem_cons_self)
    · exact absurd hs List.not_mem_nil
    · obtain ⟨b, t, rfl⟩ := List.exists_cons_of_ne_nil hne
      have hb : b ≠ 47 := fun h => Lib.Separated.not_mem_of_mem_splitOn hs (h ▸ List.mem_cons_self)
      by_cases hrest : rest = []
      · exact Or.inr ⟨b, t, hb, by rw [hrest, List.intercalate_singleton]⟩
      · refine Or.inr ⟨b, t ++ 47 :: [47].intercalate rest, hb, ?_⟩
        simp [List.intercalate_cons_of_ne_nil hrest]

theorem mem_redirectURL {url : Bytes} {b : UInt8} (h : b ∈ redirectURL url) : b ∈ url ∨ b = 47 := by
  have hclean : b ∈ cleanPath (url.takeWhile (· ≠ 63)) → b ∈ url ∨ b = 47 := fun hb =>
    (mem_cleanPath hb).imp_left fun hp => List.takeWhile_subset _ hp
  simp only [redirectURL] at h
  split_ifs at h with hparses hslash
  · obtain h | h := List.mem_append.1 h
    · obtain h | h := List.mem_append.1 h
      · exact hclean h
      · exact Or.inr (List.mem_singleton.1 h)
    · exact Or.inl (List.dropWhile_subset _ h)
  · obtain h | h := List.mem_append.1 h
    · exact hclean h
    · exact Or.inl (List.dropWhile_subset _ h)
  · exact Or.inl h

theorem dropWhile_question (url t : Bytes) : url.dropWhile (· ≠ 63) ≠ 47 :: t := by
  intro h
  have hhead := List.head?_dropWhile_not (· ≠ (63 : UInt8)) url
  rw [h] at hhead
  exact absurd hhead (show ¬ decide ((47 : UInt8) ≠ 63) = false by decide)

theorem redirectURL_one_slash {url : Bytes} (h : ¬ [47, 47] <+: url) : ¬ [47, 47] <+: redirectURL url := by
  simp only [redirectURL]
  split_ifs with hparses hslash
  · obtain hroot | ⟨b, t, hb, hpath⟩ := cleanPath_cases (url.takeWhile (· ≠ 63))
    · rw [hroot] at hslash
      exact absurd hslash (by simp)
    · rw [hpath]
      simp [hb.symm]
  · obtain hroot | ⟨b, t, hb, hpath⟩ := cleanPath_cases (url.takeWhile (· ≠ 63))
    · rw [hroot]
      intro ⟨t, ht⟩
      exact dropWhile_question url t (List.cons.inj ht).2.symm
    · rw [hpath]
      simp [hb.symm]
  · exact h

theorem hexDigit_plain {n : ℕ} (hn : n < 16) : hexDigit n ≠ 92 ∧ hexDigit n ≠ 9 := by
  have hall : ∀ n < 16, hexDigit n ≠ 92 ∧ hexDigit n ≠ 9 := by decide
  exact hall n hn

theorem plain_hexEscapeNonASCII {v : Bytes} (hback : 92 ∉ v) (htab : 9 ∉ v) :
    ∀ b ∈ hexEscapeNonASCII v, b ≠ 92 ∧ b ≠ 9 := by
  intro b hb
  obtain ⟨c, hc, hb⟩ := List.mem_flatMap.1 hb
  split_ifs at hb with hascii
  · rw [List.mem_singleton.1 hb]
    exact ⟨fun h => hback (h ▸ hc), fun h => htab (h ▸ hc)⟩
  · have hlt := c.toNat_lt
    simp only [List.mem_cons, List.not_mem_nil, or_false] at hb
    obtain rfl | rfl | rfl := hb
    · decide
    · exact hexDigit_plain (by omega)
    · exact hexDigit_plain (by omega)

theorem plain_headerText {v : Bytes} (hplain : ∀ b ∈ v, b ≠ 92 ∧ b ≠ 9) :
    ∀ c ∈ headerText v, c ≠ '\\' ∧ isTabOrNewline c = false := by
  have hall : ∀ n < 256, n ≠ 92 → n ≠ 9 →
      newlineToSpace (Char.ofNat n) ≠ '\\' ∧ isTabOrNewline (newlineToSpace (Char.ofNat n)) = false := by decide +kernel
  intro c hc
  have hmem := Lib.HttpHead.mem_of_mem_trim hc
  rw [List.map_map] at hmem
  obtain ⟨b, hb, rfl⟩ := List.mem_map.1 hmem
  refine hall b.toNat b.toNat_lt (fun h => (hplain b hb).1 ?_) fun h => (hplain b hb).2 ?_
  · exact UInt8.toNat_inj.1 h
  · exact UInt8.toNat_inj.1 h

theorem headerText_one_slash {v : Bytes} (h : ¬ [47, 47] <+: 47 :: v) :
    ¬ "//".toList <+: headerText (hexEscapeNonASCII (47 :: v)) := by
  obtain ⟨a, b, ha, hmap⟩ := headerText_cons (hexEscapeNonASCII v)
  rw [hexEscapeNonASCII_cons, ha]
  intro ⟨t, ht⟩
  obtain rfl : a = '/' :: t := (List.cons.inj ht).2.symm
  have hall : ∀ n < 128, newlineToSpace (Char.ofNat n) = '/' → n = 47 := by decide +kernel
  cases v with
  | nil => exact absurd hmap.symm (List.cons_ne_nil _ _)
  | cons x v =>
    by_cases hx : x < 0x80
    · have hcons : hexEscapeNonASCII (x :: v) = x :: hexEscapeNonASCII v := by
        simp [hexEscapeNonASCII, hx]
      rw [hcons, List.map_cons, List.map_cons, List.cons_append] at hmap
      have h47 : x = 47 := UInt8.toNat_inj.1 (hall x.toNat (UInt8.lt_iff_toNat_lt.1 hx) (List.cons.inj hmap).1)
      exact h ⟨v, by rw [h47]; rfl⟩
    · have hcons : ∃ w, hexEscapeNonASCII (x :: v) = 37 :: w := ⟨_, by simp [hexEscapeNonASCII, hx]; rfl⟩
      obtain ⟨w, hw⟩ := hcons
      rw [hw, List.map_cons, List.map_cons, List.cons_append] at hmap
      exact absurd (List.cons.inj hmap).1 (by decide)

theorem consentLocation_plain {rt : Bytes} (hback : 92 ∉ rt) (htab : 9 ∉ rt) : namesAuthority (consentLocation rt) = false := by
  obtain ⟨⟨t, ht⟩, hone, hmem⟩ := consentReturnTo_cases rt
  obtain ⟨t', ht'⟩ := redirectURL_cons t
  have hsent : ∀ b ∈ redirectURL (consentReturnTo rt), b ∈ rt ∨ b = 47 := by
    intro b hb
    obtain hb | hb := mem_redirectURL hb
    · exact hmem b hb
    · exact Or.inr hb
  have hfree : ∀ b, b ∉ rt → b ≠ 47 → b ∉ redirectURL (consentReturnTo rt) := by
    intro b hnot hne hb
    obtain hb | hb := hsent b hb
    · exact hnot hb
    · exact hne hb
  refine namesAuthority_eq_false ?_ ?_
  · exact plain_headerText (plain_hexEscapeNonASCII (hfree 92 hback (by decide)) (hfree 9 htab (by decide)))
  · rw [consentLocation]
    have hnot := redirectURL_one_slash hone
    rw [ht, ht'] at hnot ⊢
    exact headerText_one_slash hnot

theorem safeReturnTo_plain {cookieDomain : Option Text} {raw : Text}
    (hplain : ∀ c ∈ raw, c ≠ '\\' ∧ isTabOrNewline c = false) :
    namesAuthority (safeReturnTo hosts cookieDomain (some raw)) = false := by
  simp only [safeReturnTo]
  split_ifs with hempty hpath hdomain
  · rfl
  · refine namesAuthority_eq_false hplain fun htwo => ?_
    rw [List.isPrefixOf_iff_prefix.2 htwo] at hpath
    simp at hpath
  · rfl
  · split
    · next u hu =>
      split_ifs with hwithin
      · -- a URL begins with the first letter of its scheme
        have hscheme : u.scheme = .https := by
          simp only [Bool.and_eq_true, decide_eq_true_eq] at hwithin
          exact hwithin.1
        rw [Url.serialize, hscheme]
        rfl
      · rfl
    · rfl

/-! The two together. -/

/-- Names of lower case letters, digits, dots and hyphens, which host parsing leaves as they are. -/
def isPlainName (t : Text) : Bool := t ≠ [] && t.all fun c => Lib.Dns.alnum c || c = '-' || c = '.'

theorem isPlainName_char {c : Char} (h : (Lib.Dns.alnum c || c = '-' || c = '.') = true) :
    hostForbidden c = false ∧ c ≠ ':' ∧ c ≠ '[' ∧ c ≠ ']' := by
  have hall : ∀ n < 128, (Lib.Dns.alnum (Char.ofNat n) || Char.ofNat n = '-' || Char.ofNat n = '.') = true →
      hostForbidden (Char.ofNat n) = false ∧ Char.ofNat n ≠ ':' ∧ Char.ofNat n ≠ '[' ∧ Char.ofNat n ≠ ']' := by
    decide +kernel
  have hlt : c.toNat < 128 := by
    simp only [Lib.Dns.alnum, Bool.or_eq_true, Bool.and_eq_true, decide_eq_true_eq] at h
    obtain ((⟨-, hz⟩ | ⟨-, h9⟩) | rfl) | rfl := h
    · exact (UInt32.le_iff_toNat_le.1 hz).trans_lt (by decide)
    · exact (UInt32.le_iff_toNat_le.1 h9).trans_lt (by decide)
    · decide
    · decide
  have hc := hall c.toNat hlt
  rw [Char.ofNat_toNat] at hc
  exact hc h

theorem bracketsAt_of_free {t : Text} (h : ∀ c ∈ t, c ≠ ':' ∧ c ≠ '[' ∧ c ≠ ']') : bracketsAt false t = some false := by
  induction t with
  | nil => rfl
  | cons c t ih =>
    obtain ⟨⟨hcolon, hopen, hclose⟩, ht⟩ := List.forall_mem_cons.1 h
    rw [bracketsAt, if_neg (by simp [hcolon]), if_neg hopen, if_neg hclose]
    exact ih ht

def plainHosts : HostParser where
  parse t := if isPlainName t then some t else none
  nonempty := by
    intro t h hparse
    obtain ⟨hname, heq⟩ := Option.ite_none_right_eq_some.1 hparse
    cases heq
    simp only [isPlainName, Bool.and_eq_true, decide_eq_true_eq] at hname
    exact hname.1
  clean := by
    intro t h hparse c hc
    obtain ⟨hname, heq⟩ := Option.ite_none_right_eq_some.1 hparse
    cases heq
    exact (isPlainName_char (List.all_eq_true.1 (Bool.and_eq_true_iff.1 hname).2 c hc)).1
  bracketed := by
    intro t h hparse
    obtain ⟨hname, heq⟩ := Option.ite_none_right_eq_some.1 hparse
    cases heq
    exact bracketsAt_of_free fun c hc =>
      (isPlainName_char (List.all_eq_true.1 (Bool.and_eq_true_iff.1 hname).2 c hc)).2
  again := by
    intro t h hparse
    obtain ⟨hname, heq⟩ := Option.ite_none_right_eq_some.1 hparse
    cases heq
    exact if_pos hname

/-- The root of a host over https. -/
def httpsRoot (host : String) : Url where
  scheme := .https
  username := []
  password := []
  host := host.toList
  port := none
  path := [[]]
  query := none
  fragment := none

end Captivo.ReturnTo
