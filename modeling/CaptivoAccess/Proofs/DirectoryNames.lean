import CaptivoAccess.Lib.DistinguishedName
import CaptivoAccess.Lib.HttpHead
import CaptivoAccess.Spec.UserAdmin

/-! Group mappings that are typed as full names. Names are compared without the white space next
to a comma and without regard to case. A comma may be part of a value, though, and so may
the space next to it be. -/

namespace Captivo.Directory

open Lib.DistinguishedName
open Captivo.Enroll (Role)
open Captivo.RecFetch (Text trim isSpace)
open Captivo.Users

/-- `toLowerCase`, and a case folding that tells no more texts apart. -/
structure CaseRules extends Folding where
  lower : Text → Text
  text_eq : ∀ {s t}, lower s = lower t → toFolding.text s = toFolding.text t

/-- A name without the white space next to its commas and at its ends. -/
def unspaced (dn : Text) : Text := List.intercalate [','] ((dn.splitOn ',').map trim)

theorem trim_append {a t b : Text} (ha : ∀ c ∈ a, isSpace c = true) (hb : ∀ c ∈ b, isSpace c = true) : trim (a ++ t ++ b) = trim t :=
  Lib.HttpHead.trim_append ha hb

theorem not_mem_of_isSpace {p : Char} (hp : isSpace p = false) {w : Text} (hw : ∀ c ∈ w, isSpace c = true) : p ∉ w := by
  intro hmem
  rw [hw p hmem] at hp
  cases hp

theorem unspaced_trim (dn : Text) : unspaced (trim dn) = unspaced dn := by
  obtain ⟨a, b, hdn, ha, hb⟩ := Lib.HttpHead.exists_eq_append_trim isSpace dn
  change dn = a ++ trim dn ++ b at hdn
  have hcomma : isSpace ',' = false := by decide
  have hnil : ∀ c ∈ ([] : Text), isSpace c = true := List.forall_mem_nil _
  obtain ⟨p, ps, hp, happend⟩ := Lib.Separated.splitOn_append_left (not_mem_of_isSpace hcomma ha) (trim dn)
  obtain ⟨qs, q, hq, happend'⟩ := Lib.Separated.splitOn_append_right (not_mem_of_isSpace hcomma hb) (a ++ trim dn)
  rw [← hdn] at happend'
  have hleft : ((a ++ trim dn).splitOn ',').map trim = ((trim dn).splitOn ',').map trim := by
    have htrim : trim (a ++ p) = trim p := by simpa using @trim_append a p [] ha hnil
    rw [hp, happend, List.map_cons, List.map_cons, htrim]
  have hright : (dn.splitOn ',').map trim = ((a ++ trim dn).splitOn ',').map trim := by
    have htrim : trim (q ++ b) = trim q := by simpa using @trim_append [] q b hnil hb
    rw [happend', hq, List.map_append, List.map_append, List.map_singleton, List.map_singleton, htrim]
  rw [unspaced, unspaced, hright, hleft]

theorem mem_trim {c : Char} (hc : isSpace c = false) {t : Text} (h : c ∈ t) : c ∈ trim t := by
  obtain ⟨a, b, ht, ha, hb⟩ := Lib.HttpHead.exists_eq_append_trim isSpace t
  rw [ht, List.mem_append, List.mem_append] at h
  rcases h with (h | h) | h
  · exact absurd h (not_mem_of_isSpace hc ha)
  · exact h
  · exact absurd h (not_mem_of_isSpace hc hb)

theorem isBareName_trim {a : Text} {e : List (List Attribute)} (ha : readName a = some e) : isBareName (trim a) = false := by
  by_cases hnil : a = []
  · rw [hnil]
    rfl
  · have hmem : '=' ∈ trim a := mem_trim (by decide) (mem_of_readName ha hnil)
    simp [isBareName, hmem]

/-- A mapping typed as a name applies to the groups that are the same text without the white space at the commas. -/
theorem applies_iff (lower : Text → Text) {a : Text} {e : List (List Attribute)} (ha : readName a = some e) (kind : MappingKind)
    (groups : List Text) :
    Mapping.applies lower groups ⟨kind, a, true⟩ = true ↔ ∃ b ∈ groups, lower (unspaced a) = lower (unspaced b) := by
  simp only [Mapping.applies, isBareName_trim ha, Bool.false_eq_true, if_false, Bool.true_and, decide_eq_true_eq, List.mem_map]
  rw [show normalizeDN lower (trim a) = lower (unspaced (trim a)) from rfl, unspaced_trim]
  exact ⟨fun ⟨b, hb, heq⟩ => ⟨b, hb, heq.symm⟩, fun ⟨b, hb, heq⟩ => ⟨b, hb, heq.symm⟩⟩

/-- One mapping that does not apply decides nothing, and one that does decides something. -/
theorem computeReconcile_one (lower : Text → Text) (groups : List Text) (m : Mapping) (managed : Bool) :
    computeReconcile lower groups [m] managed = ⟨managed, none, []⟩ ↔ m.applies lower groups = false := by
  cases happlies : m.applies lower groups with
  | false => simp [computeReconcile, happlies]
  | true =>
    obtain ⟨kind, dn, enabled⟩ := m
    refine iff_of_false (fun h => ?_) Bool.true_eq_false_eq_False
    rw [computeReconcile, List.filter_cons_of_pos happlies, List.filter_nil] at h
    cases kind with
    | role r => exact Option.some_ne_none _ (congrArg ReconcileDecision.role h)
    | site siteId => exact Option.some_ne_none _ (congrArg ReconcileDecision.role h)

/-- For every name that a mapping is typed as and all groups that are other entries, the mapping grants nothing if and only if no group has
the same text as the name without the white space next to the commas, where one of the two has such white space. -/
theorem name_grants_nothing_iff (rules : CaseRules) (kind : MappingKind) (managed : Bool) {a : Text} {e : List (List Attribute)}
    (ha : readName a = some e) {groups : List Text}
    (hgroups : ∀ b ∈ groups, ∃ e', readName b = some e' ∧ ¬ SameEntry rules.toFolding e e') :
    computeReconcile rules.lower groups [⟨kind, a, true⟩] managed = ⟨managed, none, []⟩ ↔
      ∀ b ∈ groups, ¬ ((unspaced a ≠ a ∨ unspaced b ≠ b) ∧ rules.lower (unspaced a) = rules.lower (unspaced b)) := by
  rw [computeReconcile_one, ← Bool.not_eq_true, applies_iff rules.lower ha]
  constructor
  · rintro hnone b hb ⟨-, heq⟩
    exact hnone ⟨b, hb, heq⟩
  · rintro hapart ⟨b, hb, heq⟩
    obtain ⟨e', he', hother⟩ := hgroups b hb
    -- names without such white space that compare equal are the same entry
    by_cases hspaced : unspaced a ≠ a ∨ unspaced b ≠ b
    · exact hapart b hb ⟨hspaced, heq⟩
    · rw [not_or, not_ne_iff, not_ne_iff] at hspaced
      rw [hspaced.1, hspaced.2] at heq
      exact hother (sameEntry_of_text_eq rules.toFolding ha he' (rules.text_eq heq))

/-- Rules that know the ASCII letters only. -/
def asciiRules : CaseRules where
  fold c := [c.toLower]
  ne_nil _ := List.cons_ne_nil _ _
  again c := by
    rcases Lib.IpText.toLower_eq (rfl : c.toLower.toLower = c.toLower.toLower) with heq | ⟨hlow, hhigh, -⟩
    · exact congrArg (fun d => [d]) heq.symm
    · rcases Lib.IpText.toLower_eq (rfl : c.toLower = c.toLower) with heq | ⟨hcapital, -, hd⟩
      · rw [← heq]
        exact congrArg (fun d => [d]) heq.symm
      · omega
  ascii _ _ := rfl
  beyond c hc d hd := by
    rcases Lib.IpText.toLower_eq (rfl : c.toLower = c.toLower) with heq | ⟨-, hhigh, -⟩
    · rw [List.mem_singleton.1 hd, ← heq]
      exact Or.inl hc
    · omega
  lower t := t.map Char.toLower
  text_eq h := by
    change List.flatMap _ _ = List.flatMap _ _
    rw [← List.map_eq_flatMap, ← List.map_eq_flatMap]
    exact h

/-- The group of that name in the domain `corp`. -/
def corpGroup (cn : String) : List (List Attribute) :=
  [[⟨"CN".toList, .string cn.toList⟩], [⟨"DC".toList, .string "corp".toList⟩]]

theorem corpGroup_apart {cn cn' : String}
    (h : Attribute.folded asciiRules.toFolding ⟨"CN".toList, .string cn.toList⟩ ≠
      Attribute.folded asciiRules.toFolding ⟨"CN".toList, .string cn'.toList⟩) :
    ¬ SameEntry asciiRules.toFolding (corpGroup cn) (corpGroup cn') := by
  intro hsame
  cases hsame with
  | cons hpart _ => exact h (List.mem_singleton.1 ((hpart _).1 (List.mem_singleton_self _)))

/-- A name that differs in a letter. -/
theorem name_grants_nothing_plain :
    computeReconcile asciiRules.lower ["CN=b,DC=corp".toList] [⟨.role .ADMIN, "CN=a,DC=corp".toList, true⟩] true = ⟨true, none, []⟩ := by
  have ha : readName "CN=a,DC=corp".toList = some (corpGroup "a") := by decide +kernel
  refine (name_grants_nothing_iff asciiRules (.role .ADMIN) true ha ?_).2 (List.forall_mem_singleton.2 ?_)
  · exact List.forall_mem_singleton.2 ⟨corpGroup "b", by decide +kernel, corpGroup_apart (by decide +kernel)⟩
  · rintro ⟨-, heq⟩
    revert heq
    decide +kernel

/-- A group with a space behind a comma in its name is taken for the one without. -/
theorem other_group_granted :
    readName "CN=Sales\\, EU,DC=corp".toList = some (corpGroup "Sales, EU") ∧
    readName "CN=Sales\\,EU,DC=corp".toList = some (corpGroup "Sales,EU") ∧
    ¬ SameEntry asciiRules.toFolding (corpGroup "Sales, EU") (corpGroup "Sales,EU") ∧
    (computeReconcile asciiRules.lower ["CN=Sales\\,EU,DC=corp".toList] [⟨.role .ADMIN, "CN=Sales\\, EU,DC=corp".toList, true⟩] true).role =
      some .ADMIN :=
  ⟨by decide +kernel, by decide +kernel, corpGroup_apart (by decide +kernel), by decide +kernel⟩

end Captivo.Directory
