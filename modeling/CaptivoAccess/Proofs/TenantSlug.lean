import CaptivoAccess.Lib.IpText
import CaptivoAccess.Spec.TenantSlug
import CaptivoAccess.Proofs.SiteNamespace

/-! Whether a workspace can have the slug that is proposed for it, and is found under it. -/

namespace Captivo.Signup

open Lib.Dns Captivo.Site

/-! The text of a slug. -/

/-- No hyphen is next to another. -/
abbrev Apart (t : Text) : Prop := t.IsChain fun a b => a ≠ '-' ∨ b ≠ '-'

def SlugText (t : Text) : Prop := ∀ c ∈ t, alnum c = true ∨ c = '-'

theorem hyphenateRuns_spec (inRun : Bool) (t : Text) :
    Apart (hyphenateRuns inRun t) ∧ (inRun = true → (hyphenateRuns inRun t).head? ≠ some '-') ∧ SlugText (hyphenateRuns inRun t) := by
  induction t generalizing inRun with
  | nil => exact ⟨.nil, fun _ => nofun, nofun⟩
  | cons c cs ih =>
    unfold hyphenateRuns
    split_ifs with hc hrun
    · obtain ⟨hapart, -, htext⟩ := ih false
      have hne : c ≠ '-' := fun h => absurd (h ▸ hc) (by decide)
      exact ⟨List.isChain_cons.2 ⟨fun _ _ => Or.inl hne, hapart⟩, fun _ h => hne (Option.some.inj h),
        List.forall_mem_cons.2 ⟨Or.inl hc, htext⟩⟩
    · exact ⟨(ih true).1, fun _ => (ih true).2.1 rfl, (ih true).2.2⟩
    · obtain ⟨hapart, hhead, htext⟩ := ih true
      refine ⟨List.isChain_cons.2 ⟨fun d hd => Or.inr ?_, hapart⟩, fun h => absurd h hrun, List.forall_mem_cons.2 ⟨Or.inr rfl, htext⟩⟩
      rintro rfl
      exact hhead rfl hd

/-- One hyphen off the front. -/
theorem head_trimmed {t : Text} (h : Apart t) : (if t.head? = some '-' then t.tail else t).head? ≠ some '-' := by
  split_ifs with hhead
  · obtain ⟨rest, rfl⟩ := List.head?_eq_some_iff.1 hhead
    exact fun h' => ((List.isChain_cons.1 h).1 '-' h').elim (· rfl) (· rfl)
  · exact hhead

theorem last_trimmed {t : Text} (h : Apart t) : (if t.getLast? = some '-' then t.dropLast else t).getLast? ≠ some '-' := by
  have hlast := head_trimmed (t := t.reverse) (List.isChain_reverse.2 (h.imp fun _ _ => Or.symm))
  simpa only [List.head?_reverse, List.tail_reverse, apply_ite List.head?, apply_ite List.getLast?] using hlast

structure Trimmed (t : Text) : Prop where
  text : SlugText t
  head : t.head? ≠ some '-'
  last : t.getLast? ≠ some '-'

theorem trimHyphens_trimmed {t : Text} (h : Apart t) (htext : SlugText t) : Trimmed (trimHyphens t) := by
  have hhead := head_trimmed h
  have hrest : Apart (if t.head? = some '-' then t.tail else t) ∧ (if t.head? = some '-' then t.tail else t) ⊆ t := by
    split_ifs
    · exact ⟨h.tail, List.tail_subset t⟩
    · exact ⟨h, List.Subset.refl t⟩
  rw [trimHyphens]
  generalize (if t.head? = some '-' then t.tail else t) = rest at hhead hrest ⊢
  have hstart : (if rest.getLast? = some '-' then rest.dropLast else rest) <+: rest := by
    split_ifs
    · exact List.dropLast_prefix rest
    · exact List.prefix_refl rest
  refine ⟨fun c hc => htext c (hrest.2 (hstart.subset hc)), fun h' => hhead ?_, last_trimmed hrest.1⟩
  obtain ⟨cs, hcs⟩ := List.head?_eq_some_iff.1 h'
  obtain ⟨end_, hend⟩ := hstart
  rw [← hend, hcs]
  rfl

theorem hyphenated_trimmed (rt : Runtime) (organizationName : Text) : Trimmed (hyphenated rt organizationName) := by
  obtain ⟨hapart, -, htext⟩ := hyphenateRuns_spec false (rt.lower (organizationName.map fun c => (TR.lookup c).getD c))
  exact trimHyphens_trimmed hapart htext

theorem alnum_of_ne {c : Char} (h : alnum c = true ∨ c = '-') (hne : c ≠ '-') : alnum c = true := h.resolve_right hne

/-- What is kept of a name is a label unless it ends in a hyphen. -/
theorem isLabel_take {t : Text} (h : Trimmed t) (hne : t ≠ []) : isLabel (t.take 40) = true ↔ t[39]? ≠ some '-' := by
  obtain ⟨c, cs, rfl⟩ := List.exists_cons_of_ne_nil hne
  have hfirst : alnum c = true := alnum_of_ne (h.text c List.mem_cons_self) fun hc => h.head (congrArg some hc)
  have htext : ((c :: cs).take 40).all (fun c => alnum c || c = '-') = true := by
    rw [List.all_eq_true]
    intro d hd
    simpa using h.text d (List.mem_of_mem_take hd)
  have hlength : ((c :: cs).take 40).length ≤ 63 := (List.length_take_le _ _).trans (by decide)
  have hlast : ((c :: cs).take 40).getLast? = (c :: cs)[39]?.or (c :: cs).getLast? := by
    rw [List.getLast?_take, if_neg (by decide)]
  rw [isLabel, htext, hlast, decide_eq_true hlength, List.take_succ_cons, List.head?_cons, Option.any_some, hfirst, Bool.and_self,
    Bool.and_self, Bool.true_and]
  cases hcut : (c :: cs)[39]? with
  | none =>
    obtain ⟨d, hd⟩ := Option.ne_none_iff_exists'.1 (mt List.getLast?_eq_none_iff.1 hne)
    have hlast : alnum d = true := alnum_of_ne (h.text d (List.mem_of_getLast? hd)) fun hdash => h.last (hdash ▸ hd)
    simp [hd, hlast]
  | some d =>
    have hd := h.text d (List.mem_of_getElem? hcut)
    by_cases hdash : d = '-'
    · simp [hdash, alnum]
    · simp [hdash, alnum_of_ne hd hdash]

/-! The slug of a name without a letter or a digit. -/

theorem alnum_digit : ∀ d < 36, alnum (Char.ofNat (if d < 10 then 48 + d else 87 + d)) = true := by decide

theorem alnum_of_mem_toString36 {n : ℕ} {c : Char} (h : c ∈ toString36 n) : alnum c = true := by
  unfold toString36 at h
  split_ifs at h with hn
  · rw [List.mem_singleton.1 h]
    decide
  · obtain ⟨d, hd, rfl⟩ := List.mem_map.1 h
    exact alnum_digit d (Nat.digits_lt_base (by decide) (List.mem_reverse.1 hd))

theorem toString36_ne_nil (n : ℕ) : toString36 n ≠ [] := by
  unfold toString36
  split_ifs with hn
  · exact List.cons_ne_nil _ _
  · simpa [Nat.digits_eq_nil_iff_eq_zero] using hn

theorem length_toString36 {n k : ℕ} (hk : 0 < k) (h : n < 36 ^ k) : (toString36 n).length ≤ k := by
  unfold toString36
  split_ifs with hn
  · exact hk
  · rw [List.length_map, List.length_reverse, Nat.digits_length_le_iff (by decide)]
    exact h

/-- The largest time that a `Date` has. -/
def maxTime : ℕ := 8640000000000000

theorem isLabel_workspace {now : ℕ} (h : now ≤ maxTime) : isLabel ("workspace-".toList ++ toString36 now) = true := by
  have hlength : (toString36 now).length ≤ 11 := length_toString36 (by decide) (h.trans_lt (by decide))
  obtain ⟨d, hd⟩ := Option.ne_none_iff_exists'.1 (mt List.getLast?_eq_none_iff.1 (toString36_ne_nil now))
  simp only [isLabel, Bool.and_eq_true, decide_eq_true_eq, List.all_append, List.length_append, List.getLast?_append, hd, Option.some_or,
    Option.any_some]
  refine ⟨⟨⟨?_, by decide, ?_⟩, rfl⟩, alnum_of_mem_toString36 (List.mem_of_getLast? hd)⟩
  · rw [show "workspace-".toList.length = 10 from rfl]
    omega
  · rw [List.all_eq_true]
    exact fun c hc => by rw [alnum_of_mem_toString36 hc, Bool.true_or]

/-! The address. -/

/-- A domain that consoles are under, in ASCII, without a port and without a dot at its end. -/
structure ConsoleDomain where
  text : Text
  ne_nil : text ≠ []
  ascii : ∀ c ∈ text, c.toNat < 128
  no_port : ':' ∉ text
  last : text.getLast? ≠ some '.'

/-- `toLowerCase` of a text of ASCII. -/
def LowersAscii (rt : Runtime) : Prop := ∀ t, (∀ c ∈ t, c.toNat < 128) → rt.lower t = t.map Char.toLower

theorem stripPort_of_no_colon {t : Text} (h : ':' ∉ t) : stripPort t = t := by
  simp only [stripPort]
  split
  · rename_i rest hrest
    have hmem : ':' ∈ ':' :: rest := List.mem_cons_self
    rw [← hrest] at hmem
    exact absurd (List.mem_reverse.1 (List.mem_of_mem_drop hmem)) h
  · rfl

theorem toLower_of_slugChar {c : Char} (h : alnum c = true ∨ c = '-') : c.toLower = c := by
  rcases h with h | rfl
  · exact toLower_of_alnum h
  · rfl

theorem slugChar_lt {c : Char} (h : alnum c = true ∨ c = '-') : c.toNat < 128 := by
  rcases h with h | rfl
  · simp only [alnum, Bool.or_eq_true, Bool.and_eq_true, decide_eq_true_eq] at h
    rcases h with h | h
    · exact Nat.lt_of_le_of_lt h.2 (by decide)
    · exact Nat.lt_of_le_of_lt h.2 (by decide)
  · decide

/-- Only a letter is lowered. -/
theorem eq_of_toLower {c d : Char} (h : c.toLower = d) (hd : d.toNat < 65) : c = d := by
  rcases Lib.IpText.toLower_eq h with h | ⟨hlo, -, hval⟩
  · exact h
  · omega

/-- A label that is not reserved is found in the host that it makes with a domain. -/
theorem slugFromHost_label {rt : Runtime} (hrt : LowersAscii rt) (domain : ConsoleDomain) {slug : Text} (htext : SlugText slug)
    (hne : slug ≠ []) (hfree : slug ∉ RESERVED) : slugFromHost rt (slug ++ '.' :: domain.text) domain.text = some slug := by
  have hnot : ∀ c, alnum c = false → c ≠ '-' → c ∉ slug := fun c hc hdash hmem => by simpa [hc, hdash] using htext c hmem
  have hslug : slug.map Char.toLower = slug :=
    (List.map_congr_left fun c hc => toLower_of_slugChar (htext c hc)).trans (List.map_id slug)
  have hhost : rt.lower (slug ++ '.' :: domain.text) = slug ++ '.' :: rt.lower domain.text := by
    rw [hrt, hrt domain.text domain.ascii, List.map_append, List.map_cons, hslug]
    · rfl
    · intro c hc
      rcases List.mem_append.1 hc with hc | hc
      · exact slugChar_lt (htext c hc)
      · rcases List.mem_cons.1 hc with rfl | hc
        · decide
        · exact domain.ascii c hc
  have hport : ':' ∉ slug ++ '.' :: rt.lower domain.text := by
    rw [hrt domain.text domain.ascii, List.mem_append, List.mem_cons, List.mem_map]
    rintro (hc | hc | ⟨c, hc, hcolon⟩)
    · exact hnot ':' rfl (by decide) hc
    · exact absurd hc (by decide)
    · exact domain.no_port (eq_of_toLower hcolon (by decide) ▸ hc)
  have hlast : (slug ++ '.' :: rt.lower domain.text).getLast? ≠ some '.' := by
    obtain ⟨d, hd⟩ := Option.ne_none_iff_exists'.1 (mt List.getLast?_eq_none_iff.1 domain.ne_nil)
    rw [hrt domain.text domain.ascii, List.getLast?_append, List.getLast?_cons, List.getLast?_map, hd]
    exact fun h => domain.last (hd.trans (congrArg some (eq_of_toLower (Option.some.inj h) (by decide))))
  have hlabel : (slug ++ '.' :: rt.lower domain.text).take
      ((slug ++ '.' :: rt.lower domain.text).length - ('.' :: rt.lower domain.text).length) = slug := by
    rw [List.length_append, Nat.add_sub_cancel, List.take_left]
  have hsuffix : ('.' :: rt.lower domain.text).isSuffixOf (slug ++ '.' :: rt.lower domain.text) = true :=
    List.isSuffixOf_iff_suffix.2 (List.suffix_append _ _)
  rw [slugFromHost, if_neg (not_or.2 ⟨List.append_ne_nil_of_left_ne_nil hne _, domain.ne_nil⟩), hhost, stripPort_of_no_colon hport, stripDot,
    if_neg hlast]
  simp only [hsuffix, if_true, hlabel]
  exact if_neg (not_or.2 ⟨hne, not_or.2 ⟨hnot '.' rfl (by decide), hfree⟩⟩)

theorem reserved_short : ∀ slug ∈ RESERVED_SLUGS, slug.length ≤ 8 ∧ '-' ∉ slug := by decide

theorem mem_reserved_take (t : Text) : t.take 40 ∈ RESERVED_SLUGS ↔ t ∈ RESERVED_SLUGS := by
  rcases Nat.le_total t.length 40 with hle | hle
  · rw [List.take_of_length_le hle]
  · constructor
    · intro h
      have hshort := (reserved_short _ h).1
      rw [List.length_take] at hshort
      omega
    · intro h
      have hshort := (reserved_short _ h).1
      omega

theorem isValidTenantSlug_iff {slug : Text} : isValidTenantSlug slug = true ↔ isLabel slug = true ∧ slug ∉ RESERVED_SLUGS := by
  simp only [isValidTenantSlug, isReservedSlug, Bool.and_eq_true, Bool.not_eq_true', decide_eq_false_iff_not]

theorem isValidTenantSlug_suggested (rt : Runtime) {now : ℕ} (hnow : now ≤ maxTime) (organizationName : Text) :
    isValidTenantSlug (suggestedSlug rt now organizationName) = true ↔
      (hyphenated rt organizationName)[39]? ≠ some '-' ∧ hyphenated rt organizationName ∉ RESERVED_SLUGS := by
  rw [isValidTenantSlug_iff, suggestedSlug]
  by_cases hnil : hyphenated rt organizationName = []
  · have hfree : "workspace-".toList ++ toString36 now ∉ RESERVED_SLUGS := fun h =>
      (reserved_short _ h).2 (List.mem_append_left _ (by decide))
    rw [hnil, List.take_nil, if_pos rfl]
    exact iff_of_true ⟨isLabel_workspace hnow, hfree⟩ ⟨nofun, by decide⟩
  · have htake : (hyphenated rt organizationName).take 40 ≠ [] := by simpa using hnil
    rw [if_neg htake, isLabel_take (hyphenated_trimmed rt organizationName) hnil, mem_reserved_take]

theorem reserved_subset : RESERVED ⊆ RESERVED_SLUGS := by decide

/-- The slug that is proposed for an organisation is one that a tenant may have, and is found in its host, exactly when the
name is not cut off behind a hyphen and is not a reserved one. -/
theorem suggestion_usable_iff (rt : Runtime) (hrt : LowersAscii rt) (now : ℕ) (hnow : now ≤ maxTime) (organizationName : Text)
    (domain : ConsoleDomain) :
    let slug := suggestedSlug rt now organizationName
    (isValidTenantSlug slug = true ∧ slugFromHost rt (slug ++ '.' :: domain.text) domain.text = some slug) ↔
      (hyphenated rt organizationName)[39]? ≠ some '-' ∧ hyphenated rt organizationName ∉ RESERVED_SLUGS := by
  intro slug
  rw [← isValidTenantSlug_suggested rt hnow organizationName]
  refine and_iff_left_of_imp fun h => ?_
  simp only [isValidTenantSlug_iff, isLabel, Bool.and_eq_true, List.all_eq_true, Bool.or_eq_true, decide_eq_true_eq] at h
  refine slugFromHost_label hrt domain h.1.1.1.2 ?_ fun hmem => h.2 (reserved_subset hmem)
  intro hnil
  have hfirst := h.1.1.2
  rw [hnil] at hfirst
  exact absurd hfirst (by decide)

def exampleDomain : ConsoleDomain :=
  ⟨"access.example.com".toList, by decide, List.forall_iff_forall_mem.1 (by decide), by decide, by decide⟩

theorem asciiRuntime_lowers : LowersAscii asciiRuntime := fun _ _ => rfl

theorem suggestion_usable_acme :
    suggestedSlug asciiRuntime 0 "Acme & Co.".toList = "acme-co".toList ∧
      isValidTenantSlug "acme-co".toList = true := by
  refine ⟨by decide, ?_⟩
  exact ((suggestion_usable_iff asciiRuntime asciiRuntime_lowers 0 (Nat.zero_le _) "Acme & Co.".toList exampleDomain).2
    ⟨by decide, by decide⟩).1

/-- A name that is reserved, and one whose fortieth character becomes a hyphen. -/
theorem suggestion_unusable :
    isValidTenantSlug (suggestedSlug asciiRuntime 0 "Admin".toList) = false ∧
    slugFromHost asciiRuntime (suggestedSlug asciiRuntime 0 "Admin".toList ++ '.' :: exampleDomain.text) exampleDomain.text = none ∧
    isValidTenantSlug (suggestedSlug asciiRuntime 0 "International Federation of Accountants Ltd".toList) = false := by
  decide +kernel

end Captivo.Signup
