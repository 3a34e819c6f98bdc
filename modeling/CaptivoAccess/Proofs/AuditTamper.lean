import CaptivoAccess.Proofs.AuditRetention

/-! What an accepted list of rows can be. Whoever can put any rows at all in place of
the stored ones, but not change the head, gets past the verifier with an end of the
genuine chain only. -/

namespace Captivo.Audit

open Lib.JsonText Lib.HashChain

/-- `digest("hex")` of 32 bytes. -/
def HexDigest (d : Units) : Prop := d.length = 64 ∧ ∀ c ∈ d, (48 ≤ c ∧ c ≤ 57) ∨ (97 ≤ c ∧ c ≤ 102)

instance (d : Units) : Decidable (HexDigest d) :=
  @instDecidableAnd _ _ _ (List.decidableBAll (fun c => (48 ≤ c ∧ c ≤ 57) ∨ (97 ≤ c ∧ c ≤ 102)) d)

theorem HexDigest.ne_nil {d : Units} (h : HexDigest d) : d ≠ [] := by
  rintro rfl
  simp [HexDigest] at h

theorem HexDigest.no_newline {d : Units} (h : HexDigest d) : 10 ∉ d := by
  intro hm
  have hc := h.2 10 hm
  revert hc
  decide

theorem chainText_inj {p p' c c' : Units} (hp : 10 ∉ p) (hp' : 10 ∉ p') (h : chainText p c = chainText p' c') : p = p' := by
  induction p generalizing p' with
  | nil =>
    cases p' with
    | nil => rfl
    | cons b p' =>
      simp only [chainText, List.nil_append, List.cons_append, List.cons.injEq] at h
      exact absurd (h.1 ▸ List.mem_cons_self) hp'
  | cons a p ih =>
    cases p' with
    | nil =>
      simp only [chainText, List.nil_append, List.cons_append, List.cons.injEq] at h
      exact absurd (h.1 ▸ List.mem_cons_self) hp
    | cons b p' =>
      simp only [chainText, List.cons_append, List.cons.injEq] at h
      rw [h.1, ih (fun hm => hp (List.mem_cons_of_mem _ hm)) (fun hm => hp' (List.mem_cons_of_mem _ hm)) h.2]

section Verify

variable {E : Type} (seq : E → ℕ) (hash : Units → E → Units)

theorem chained_of_findBreak {prev : Option Units} {rows : List (Stored E)} (h : findBreak seq hash prev rows = none) :
    Chained prev rows ∧ ∀ r ∈ rows, Recomputes hash r := by
  induction rows generalizing prev with
  | nil => exact ⟨trivial, List.forall_mem_nil _⟩
  | cons r rows ih =>
    rw [findBreak] at h
    split_ifs at h with hhash hprev
    obtain ⟨hc, hr⟩ := ih h
    refine ⟨⟨?_, hc⟩, List.forall_mem_cons.2 ⟨not_not.1 hhash, hr⟩⟩
    intro p hp
    by_contra hne
    exact hprev (by rw [Option.mem_def.1 hp]; simpa using hne)

theorem verifyWith_ok {rows : List (Stored E)} {head : ChainHead} (h : (verifyWith seq hash rows (some head)).ok = true) :
    Chained none rows ∧ (∀ r ∈ rows, Recomputes hash r) ∧ ∀ p ∈ lastHashOr none rows, p = head.lastHash := by
  cases rows with
  | nil => exact ⟨trivial, List.forall_mem_nil _, by simp [lastHashOr]⟩
  | cons r rows =>
    simp only [verifyWith] at h
    split at h
    · cases h
    · rename_i hbreak
      split_ifs at h with hhead
      obtain ⟨hc, hr⟩ := chained_of_findBreak seq hash hbreak
      refine ⟨hc, hr, ?_⟩
      intro p hp
      simp only [headMismatch, Option.any_some, Bool.or_eq_true, decide_eq_true_eq, not_or, not_not] at hhead
      rw [lastHashOr, List.getLast?_eq_some_getLast (List.cons_ne_nil r rows)] at hp
      exact (Option.some.inj hp).symm.trans hhead.2

end Verify

section Tamper

variable (sha256 : Units → Units) (toISOString : ℤ → Units)

/-- The string that a row hashes. -/
def hashedText (r : Stored ChainableEvent) : Units := chainText r.prevHash (canonicalize toISOString r.event)

/-- No two different strings of the two lists have one hash. -/
def CollisionFree (xs ys : List Units) : Prop := ∀ x ∈ xs, ∀ y ∈ ys, sha256 x = sha256 y → x = y

variable {sha256 toISOString}

theorem splits_of_hex (hhex : ∀ t, HexDigest (sha256 t)) :
    Splits (fun p e => chainText p (canonicalize toISOString e)) sha256 GENESIS_PREV_HASH := by
  intro x p e e' hp h
  have hnl : 10 ∉ p := by
    rcases hp with rfl | ⟨y, rfl⟩
    · simp [GENESIS_PREV_HASH]
    · exact (hhex y).no_newline
  exact chainText_inj (hhex x).no_newline hnl h

theorem lastHashOr_headAfter (h : ChainHead) (ls : List (Stored ChainableEvent)) :
    lastHashOr (some h.lastHash) ls = some (headAfter ChainableEvent.seq h ls).lastHash := by
  rcases List.eq_nil_or_concat ls with rfl | ⟨ls, l, rfl⟩
  · rfl
  · rw [List.concat_eq_append, headAfter_append]
    simp [lastHashOr, headAfter, advance]

/-- Rows that the verifier accepts with the genuine head are no more than were appended, and from the
end each hashes the string that the row appended there hashed. -/
theorem accepted_rows_hash_genuine_texts (sha256 : Units → Units) (toISOString : ℤ → Units)
    (hhex : ∀ t, HexDigest (sha256 t)) (steps : List ChainStep) (hsteps : ∀ s ∈ steps, s.isAppend = true)
    (rows : List (Stored ChainableEvent))
    (hcol : CollisionFree sha256 (rows.map (hashedText toISOString))
      (((runChain sha256 toISOString steps).rows.map AuditRow.stored).map (hashedText toISOString)))
    (hok : (verifyChain sha256 toISOString rows
      (some ((runChain sha256 toISOString steps).head.getD genesis))).ok = true) :
    let genuine := (runChain sha256 toISOString steps).rows.map AuditRow.stored
    rows.length ≤ genuine.length ∧
      rows.map (hashedText toISOString) = (genuine.map (hashedText toISOString)).drop (genuine.length - rows.length) := by
  intro genuine
  have hs : Sound sha256 toISOString (runChain sha256 toISOString steps) := sound_run hsteps
  obtain ⟨hchained, hrec, hend⟩ := verifyWith_ok _ _ hok
  have hgenuine : ∀ g ∈ genuine, Recomputes (computeHash sha256 toISOString) g := List.forall_mem_map.2 hs.recomputes
  have hsuffix : rows.map (hashedText toISOString) <:+ genuine.map (hashedText toISOString) := by
    refine suffix_of_same_end (splits_of_hex hhex) (fun t => (hhex t).ne_nil) ?_ (fun r hr => (hrec r hr).symm)
      (fun g hg => (hgenuine g hg).symm) hchained (chained_of_linked hs.linked) ?_
    · intro r hr g hg
      exact hcol _ (List.mem_map_of_mem hr) _ (List.mem_map_of_mem hg)
    · intro p hp
      rw [hend p hp, hs.head]
      exact lastHashOr_headAfter genesis genuine
  refine ⟨by simpa only [List.length_map] using hsuffix.length_le, ?_⟩
  simpa only [List.length_map] using List.suffix_iff_eq_drop.1 hsuffix

/-- `GET` of a page at the start of 2026. -/
def pageEvent (path : String) : AuditInput where
  timestamp := some 1767225600000
  userId := none
  siteId := none
  host := some (units "manager")
  method := some (units "GET")
  path := some (units path)
  status := some 200
  bytesOut := none
  decision := some (units "ALLOW")
  reason := none
  clientIp := none
  userAgent := none

def isoAt2026 (t : ℤ) : Units := if t = 1767225600000 then units "2026-01-01T00:00:00.000Z" else []

def pageText (prevHash : Units) (seq : ℕ) (path : String) : Units :=
  chainText prevHash (canonicalize isoAt2026
    ((normalizeAuditInput emptyChain 1767225600000 (pageEvent path)).chainable seq))

def firstPageHash : Units := units "5c15c555c0b7d3bdadcc0e9a5849cea4ad653e414f8347c223a8c0abe8d75f63"

def secondPageHash : Units := units "bd45311fae0640af445861b90e159a301d6a70075e368c3edf6a2f093b3d4176"

/-- SHA-256 of the two strings that the two pages hash. -/
def sha256OfPages (t : Units) : Units :=
  if t = pageText GENESIS_PREV_HASH 1 "/a" then firstPageHash
  else if t = pageText firstPageHash 2 "/b" then secondPageHash
  else List.replicate 64 48

def twoPages : List ChainStep :=
  [.append (fun _ => none) (fun _ => none) 1767225600000 [pageEvent "/a", pageEvent "/b"]]

theorem hexDigest_sha256OfPages (t : Units) : HexDigest (sha256OfPages t) := by
  unfold sha256OfPages
  split_ifs
  · decide +kernel
  · decide +kernel
  · decide +kernel

/-- The last page alone is accepted, and it is the genuine one. -/
theorem accepted_last_page :
    let genuine := (runChain sha256OfPages isoAt2026 twoPages).rows.map AuditRow.stored
    (genuine.drop 1).length ≤ genuine.length ∧
      (genuine.drop 1).map (hashedText isoAt2026) =
        (genuine.map (hashedText isoAt2026)).drop (genuine.length - (genuine.drop 1).length) :=
  accepted_rows_hash_genuine_texts sha256OfPages isoAt2026 hexDigest_sha256OfPages twoPages (by decide)
    (((runChain sha256OfPages isoAt2026 twoPages).rows.map AuditRow.stored).drop 1)
    (by unfold CollisionFree; decide +kernel) (by decide +kernel)

end Tamper

end Captivo.Audit
