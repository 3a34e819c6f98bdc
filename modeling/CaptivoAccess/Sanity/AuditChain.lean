import CaptivoAccess.Spec.AuditChain

/-! What a verifier says of rows that were appended one after another and whose head
is the last one: nothing but the hashes can be wrong. -/

namespace Captivo.Audit

open Lib.JsonText Lib.JsValue Lib.HashChain

section Verify

variable {E : Type} (seq : E → ℕ) (hash : Units → E → Units)

/-- The stored hash is the one that the row's content gives. -/
def Recomputes (l : Stored E) : Prop := hash l.prevHash l.event = l.hash

variable {ls : List (Stored E)} {h : ChainHead}

theorem findBreak_eq_none_iff (hl : Linked seq h ls) {prev : Option Units}
    (hp : ∀ p ∈ prev, p = h.lastHash) : findBreak seq hash prev ls = none ↔ ∀ l ∈ ls, Recomputes hash l := by
  induction ls generalizing h prev with
  | nil => simp [findBreak]
  | cons l ls ih =>
    obtain ⟨-, hprev, hrest⟩ := hl
    have hadj : prev.any (l.prevHash ≠ ·) = false := by
      cases prev with
      | none => rfl
      | some p =>
        rw [hprev, hp p rfl]
        simp
    have hnext : ∀ p ∈ some l.hash, p = (advance seq h l).lastHash := by
      intro p hpl
      exact (Option.some.inj hpl).symm
    rw [findBreak, hadj, List.forall_mem_cons, ← ih hrest hnext, Recomputes]
    by_cases hh : hash l.prevHash l.event = l.hash
    · simp [hh]
    · simp [hh]

theorem headAfter_eq_last (h : ChainHead) (hne : ls ≠ []) :
    headAfter seq h ls = ⟨seq (ls.getLast hne).event, (ls.getLast hne).hash⟩ := by
  conv_lhs => rw [← List.dropLast_append_getLast hne]
  rw [headAfter_append]
  rfl

theorem headMismatch_headAfter (h : ChainHead) (hne : ls ≠ []) :
    headMismatch seq (ls.getLast hne) (some (headAfter seq h ls)) = false := by
  rw [headAfter_eq_last seq h hne]
  simp [headMismatch]

/-- Of a chain as it was appended, with its own head, the verdict is about the hashes only. -/
theorem verifyWith_ok_iff (hl : Linked seq h ls) :
    (verifyWith seq hash ls (some (headAfter seq h ls))).ok = true ↔ ∀ l ∈ ls, Recomputes hash l := by
  cases ls with
  | nil => simp [verifyWith]
  | cons l ls =>
    have hnone : ∀ p ∈ (none : Option Units), p = h.lastHash := by simp
    rw [← findBreak_eq_none_iff seq hash hl hnone]
    simp only [verifyWith, headMismatch_headAfter seq h (List.cons_ne_nil l ls)]
    cases findBreak seq hash none (l :: ls) with
    | none => simp
    | some b => simp

theorem verifyWith_of_linked (hl : Linked seq h ls) (hr : ∀ l ∈ ls, Recomputes hash l)
    {expectedHead : Option ChainHead} (he : ∀ head ∈ expectedHead, head = headAfter seq h ls) :
    (verifyWith seq hash ls expectedHead).ok = true := by
  have hown := (verifyWith_ok_iff seq hash hl).2 hr
  cases expectedHead with
  | some head => rwa [he head rfl]
  | none =>
    cases ls with
    | nil => rfl
    | cons l ls =>
      have hnone : ∀ p ∈ (none : Option Units), p = h.lastHash := by simp
      simp [verifyWith, (findBreak_eq_none_iff seq hash hl hnone).2 hr, headMismatch]

theorem verifyWith_head_mismatch (hl : Linked seq h ls)
    (hr : ∀ l ∈ ls, Recomputes hash l) (hne : ls ≠ []) {head : ChainHead} (hseq : seq (ls.getLast hne).event ≠ head.lastSeq) :
    (verifyWith seq hash ls (some head)).ok = false ∧
      (verifyWith seq hash ls (some head)).reason = some .head_mismatch := by
  cases ls with
  | nil => exact absurd rfl hne
  | cons l ls =>
    have hnone : ∀ p ∈ (none : Option Units), p = h.lastHash := by simp
    simp [verifyWith, (findBreak_eq_none_iff seq hash hl hnone).2 hr, headMismatch, hseq]

end Verify

/-- The metadata is one field of the canonical text, between fields that do not change. -/
theorem canonicalizeAdmin_metadata (iso : ℤ → Units) (e : AdminChainable) (v : JsVal) :
    canonicalizeAdmin iso { e with metadata := v } = canonicalizeAdmin iso e ↔
      stableStringify v = stableStringify e.metadata := by
  simp only [canonicalizeAdmin, joinUS, List.append_cancel_left_eq, List.append_cancel_right_eq, List.cons.injEq,
    true_and]

end Captivo.Audit
