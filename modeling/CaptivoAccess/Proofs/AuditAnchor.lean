import CaptivoAccess.Proofs.AuditTamper

/-! Anchors whose event is not stored any more. The verdict calls every one of them
pruned, so it is right about a chain that only retention has shortened, and about no
chain that lost an anchored event above one that is left. -/

namespace Captivo.Audit

open Lib.JsonText Lib.HashChain

section Verdict

variable {R : Type} (seq : R → ℕ) (hash : R → Units) (deps : VerifyDeps) (rows : List R)

/-- The event with the anchored number is stored. -/
def AnchorStored (a : AnchorInput) : Prop := ∃ r ∈ rows, seq r = a.anchoredSeq

/-- The anchored number is below every number that is stored. -/
def BelowStored (a : AnchorInput) : Prop := ∀ r ∈ rows, a.anchoredSeq < seq r

/-- An anchor is called pruned only below what is stored, and one whose event is missing elsewhere is not ok. -/
structure TellsPruned (a : AnchorInput) : Prop where
  pruned : (anchorVerdict seq hash deps rows a).ok = true → (anchorVerdict seq hash deps rows a).beyondRetention = true →
    BelowStored seq rows a
  missing : ¬ AnchorStored seq rows a → ¬ BelowStored seq rows a → (anchorVerdict seq hash deps rows a).ok = false

variable {seq hash deps rows}

variable {a : AnchorInput}

theorem anchorVerdict_of_invalid (h : (deps.check a).ok = false) :
    (anchorVerdict seq hash deps rows a).ok = false := by
  simp [anchorVerdict, verifyOneAnchor, h]

theorem find_anchor_eq_none (h : ¬ AnchorStored seq rows a) :
    rows.find? (fun r => seq r = a.anchoredSeq) = none := by
  rw [List.find?_eq_none]
  exact fun r hr he => h ⟨r, hr, of_decide_eq_true he⟩

theorem anchorVerdict_of_missing (hv : (deps.check a).ok = true) (h : ¬ AnchorStored seq rows a) :
    (anchorVerdict seq hash deps rows a).ok = true ∧ (anchorVerdict seq hash deps rows a).beyondRetention = true := by
  simp [anchorVerdict, verifyOneAnchor, hv, find_anchor_eq_none h]

theorem beyondRetention_of_stored (h : AnchorStored seq rows a) :
    (anchorVerdict seq hash deps rows a).beyondRetention = false := by
  obtain ⟨r, hr, he⟩ := h
  obtain ⟨r', hr'⟩ : ∃ r', rows.find? (fun r => seq r = a.anchoredSeq) = some r' := by
    rw [← Option.isSome_iff_exists, List.find?_isSome]
    exact ⟨r, hr, decide_eq_true he⟩
  simp only [anchorVerdict, hr', Option.map_some, verifyOneAnchor]
  split_ifs <;> rfl

theorem tellsPruned_iff (a : AnchorInput) :
    TellsPruned seq hash deps rows a ↔
      ((deps.check a).ok = true → ¬ BelowStored seq rows a → AnchorStored seq rows a) := by
  constructor
  · intro h hv hbelow
    by_contra hs
    have hok := h.missing hs hbelow
    rw [(anchorVerdict_of_missing hv hs).1] at hok
    cases hok
  · intro h
    cases hv : (deps.check a).ok with
    | false =>
      have hno : (anchorVerdict seq hash deps rows a).ok = false := anchorVerdict_of_invalid hv
      exact ⟨fun hok => by simp [hno] at hok, fun _ _ => hno⟩
    | true =>
      refine ⟨fun _ hbeyond => ?_, fun hs hbelow => absurd (h hv hbelow) hs⟩
      by_contra hbelow
      rw [beyondRetention_of_stored (h hv hbelow)] at hbeyond
      cases hbeyond

end Verdict

/-- The head after the second page, as it was anchored. -/
def secondPageAnchor : AnchorInput := ⟨units "a1", 2, secondPageHash, [], 1767225600000⟩

/-- The authority attests that anchor. -/
def attestsSecondPage : VerifyDeps where
  tokenCheck _ preimage := ⟨preimage = anchorPreimage 2 secondPageHash, none, none⟩
  toISOString := isoAt2026

end Captivo.Audit
