import Mathlib.Tactic

/-! Records chained by hashes: each one holds the hash of the one before it and its
own, and a head outside of the chain holds the number and the hash of the last. -/

namespace Lib.HashChain

/-- In a list ordered by a number, what is left above a bound is the end of the list. -/
theorem exists_append_above {α : Type} (key : α → ℕ) {xs : List α} (hs : xs.Pairwise fun x y => key x < key y) (c : ℕ) :
    ∃ gone, xs = gone ++ xs.filter fun x => c < key x := by
  induction xs with
  | nil => exact ⟨[], rfl⟩
  | cons x xs ih =>
    obtain ⟨hx, hxs⟩ := List.pairwise_cons.1 hs
    by_cases hc : c < key x
    · refine ⟨[], ?_⟩
      rw [List.nil_append, eq_comm, List.filter_eq_self, List.forall_mem_cons]
      exact ⟨decide_eq_true hc, fun y hy => decide_eq_true (hc.trans (hx y hy))⟩
    · obtain ⟨gone, hgone⟩ := ih hxs
      refine ⟨x :: gone, ?_⟩
      rw [List.filter_cons_of_neg (by simpa using hc), List.cons_append, ← hgone]

structure Link (E H : Type) where
  event : E
  prevHash : H
  hash : H

structure Head (H : Type) where
  lastSeq : ℕ
  lastHash : H
  deriving DecidableEq

section Chain

variable {E H : Type} (seq : E → ℕ)

/-- The head after a link is appended. -/
def advance (_ : Head H) (l : Link E H) : Head H := ⟨seq l.event, l.hash⟩

def headAfter (h : Head H) (ls : List (Link E H)) : Head H := ls.foldl (advance seq) h

/-- The links continue the chain whose head is `h`, numbered without a gap. -/
def Linked : Head H → List (Link E H) → Prop
  | _, [] => True
  | h, l :: ls => seq l.event = h.lastSeq + 1 ∧ l.prevHash = h.lastHash ∧ Linked (advance seq h l) ls

theorem headAfter_append (h : Head H) (ls ms : List (Link E H)) :
    headAfter seq h (ls ++ ms) = headAfter seq (headAfter seq h ls) ms :=
  List.foldl_append

theorem linked_append (h : Head H) (ls ms : List (Link E H)) :
    Linked seq h (ls ++ ms) ↔ Linked seq h ls ∧ Linked seq (headAfter seq h ls) ms := by
  induction ls generalizing h with
  | nil => simp [Linked, headAfter]
  | cons l ls ih => simp only [List.cons_append, Linked, ih, headAfter, List.foldl_cons, and_assoc]

variable {ls : List (Link E H)}

theorem lastSeq_headAfter {h : Head H} (hl : Linked seq h ls) :
    (headAfter seq h ls).lastSeq = h.lastSeq + ls.length := by
  induction ls generalizing h with
  | nil => rfl
  | cons l ls ih =>
    have hrest := ih hl.2.2
    simp only [headAfter, List.foldl_cons, List.length_cons] at hrest ⊢
    rw [hrest]
    simp only [advance, hl.1]
    omega

theorem linked_seq {h : Head H} (hl : Linked seq h ls) {l : Link E H} (hm : l ∈ ls) :
    h.lastSeq < seq l.event ∧ seq l.event ≤ (headAfter seq h ls).lastSeq := by
  induction ls generalizing h with
  | nil => simp at hm
  | cons k ls ih =>
    have hlen := lastSeq_headAfter seq hl
    have hk := hl.1
    rcases List.mem_cons.1 hm with rfl | hm
    · simp only [List.length_cons] at hlen
      omega
    · obtain ⟨h1, h2⟩ := ih hl.2.2 hm
      simp only [advance] at h1
      exact ⟨by omega, h2⟩

theorem linked_sorted {h : Head H} (hl : Linked seq h ls) :
    ls.Pairwise fun l m => seq l.event < seq m.event := by
  induction ls generalizing h with
  | nil => exact List.Pairwise.nil
  | cons l ls ih =>
    refine List.Pairwise.cons ?_ (ih hl.2.2)
    intro m hm
    exact (linked_seq seq hl.2.2 hm).1

theorem linked_range {h : Head H} (hl : Linked seq h ls) :
    ls.map (fun l => seq l.event) = List.range' (h.lastSeq + 1) ls.length := by
  induction ls generalizing h with
  | nil => rfl
  | cons l ls ih =>
    have hrest := ih hl.2.2
    simp only [advance, hl.1] at hrest
    rw [List.map_cons, List.length_cons, List.range'_succ, hl.1, hrest]

end Chain

/-! Chains up to the hash before them, which may be unknown. -/

section Chained

variable {E H : Type}

/-- Each link holds the hash of the one before it. -/
def Chained : Option H → List (Link E H) → Prop
  | _, [] => True
  | prev, l :: ls => (∀ p ∈ prev, l.prevHash = p) ∧ Chained (some l.hash) ls

/-- The hash that a link behind `ls` has to hold. -/
def lastHashOr (prev : Option H) (ls : List (Link E H)) : Option H := (ls.getLast?.map Link.hash).or prev

theorem chained_concat (prev : Option H) (ls : List (Link E H)) (l : Link E H) :
    Chained prev (ls ++ [l]) ↔ Chained prev ls ∧ ∀ p ∈ lastHashOr prev ls, l.prevHash = p := by
  induction ls generalizing prev with
  | nil => simp [Chained, lastHashOr]
  | cons k ls ih =>
    have hlast : lastHashOr prev (k :: ls) = lastHashOr (some k.hash) ls := by
      cases hls : ls.getLast? <;> simp [lastHashOr, List.getLast?_cons, hls]
    rw [List.cons_append, Chained, Chained, ih, hlast, and_assoc]

theorem chained_of_linked {seq : E → ℕ} {h : Head H} {ls : List (Link E H)} (hl : Linked seq h ls) :
    Chained (some h.lastHash) ls := by
  induction ls generalizing h with
  | nil => trivial
  | cons l ls ih => exact ⟨fun p hp => hl.2.1.trans (Option.some.inj hp), ih hl.2.2⟩

theorem isChain_of_chained {prev : Option H} {ls : List (Link E H)} (hc : Chained prev ls) :
    ls.IsChain fun l m => m.prevHash = l.hash := by
  induction ls generalizing prev with
  | nil => exact List.IsChain.nil
  | cons l ls ih =>
    have hrest := ih hc.2
    rcases ls with _ | ⟨m, ls⟩
    · exact List.IsChain.singleton l
    · exact List.IsChain.cons_cons (hc.2.1 l.hash rfl) hrest

end Chained

/-! Tamper evidence. Hashes are digests of a text of the link, and the chain began at
`start`, which is no digest. Two lists of links that end in the same hash then agree
from the end as far as the shorter goes, and the genuine one is the longer. -/

section Tamper

variable {E H T : Type} (body : H → E → T) (digest : T → H) (start : H)

def Link.text (l : Link E H) : T := body l.prevHash l.event

/-- The text shows which hash it was made with, among the hashes that a chain holds. -/
def Splits : Prop :=
  ∀ x p e e', (p = start ∨ ∃ y, p = digest y) → body (digest x) e = body p e' → digest x = p

variable {body digest start}

theorem lastHashOr_start {gs : List (Link E H)} (hg : ∀ g ∈ gs, g.hash = digest (g.text body)) :
    ∃ q, lastHashOr (some start) gs = some q ∧ (q = start ∨ ∃ y, q = digest y) := by
  rcases List.eq_nil_or_concat gs with rfl | ⟨gs, g, rfl⟩
  · exact ⟨start, rfl, Or.inl rfl⟩
  · exact ⟨g.hash, by simp [lastHashOr], Or.inr ⟨_, hg g (by simp)⟩⟩

/-- Equal texts were made with the same hash, where there is a row before to hold it. -/
theorem same_end_before (hsplit : Splits body digest start) {rs gs : List (Link E H)} {r g : Link E H}
    (hr : ∀ r ∈ rs, r.hash = digest (r.text body)) (hg : ∀ g ∈ gs, g.hash = digest (g.text body))
    (hrp : ∀ p ∈ lastHashOr none rs, r.prevHash = p) (hgp : ∀ p ∈ lastHashOr (some start) gs, g.prevHash = p)
    (htext : r.text body = g.text body) : ∀ p ∈ lastHashOr none rs, p ∈ lastHashOr (some start) gs := by
  intro p hp
  rcases List.eq_nil_or_concat rs with rfl | ⟨rs, r', rfl⟩
  · simp [lastHashOr] at hp
  obtain ⟨q, hq, hqd⟩ : ∃ q, lastHashOr (some start) gs = some q ∧ (q = start ∨ ∃ y, q = digest y) :=
    lastHashOr_start hg
  have hpd : p = digest (r'.text body) := by
    rw [← hr r' (by simp)]
    simpa [lastHashOr, eq_comm] using hp
  have heq : digest (r'.text body) = q := by
    apply hsplit _ _ r.event g.event hqd
    rw [← hpd, ← hrp p hp, ← hgp q hq]
    exact htext
  rw [hpd, heq]
  exact hq

theorem suffix_of_same_end (hsplit : Splits body digest start) (hstart : ∀ x, digest x ≠ start)
    {rs gs : List (Link E H)}
    (hcol : ∀ r ∈ rs, ∀ g ∈ gs, digest (r.text body) = digest (g.text body) → r.text body = g.text body)
    (hr : ∀ r ∈ rs, r.hash = digest (r.text body)) (hg : ∀ g ∈ gs, g.hash = digest (g.text body))
    (hrs : Chained none rs) (hgs : Chained (some start) gs)
    (hend : ∀ p ∈ lastHashOr none rs, p ∈ lastHashOr (some start) gs) :
    rs.map (Link.text body) <:+ gs.map (Link.text body) := by
  -- backwards from the end: the last rows have one text, so the rows before them end in one hash again
  induction rs using List.reverseRecOn generalizing gs with
  | nil => exact List.nil_suffix
  | append_singleton rs r ih =>
    have hmem : r.hash ∈ lastHashOr (some start) gs := hend r.hash (by simp [lastHashOr])
    simp only [List.forall_mem_append, List.forall_mem_singleton] at hr hcol
    rcases List.eq_nil_or_concat gs with rfl | ⟨gs, g, rfl⟩
    · have hs : start = r.hash := by simpa [lastHashOr] using hmem
      exact absurd (hr.2.symm.trans hs.symm) (hstart _)
    · have hhash : g.hash = r.hash := by simpa [lastHashOr] using hmem
      rw [List.concat_eq_append] at hgs ⊢
      simp only [List.concat_eq_append, List.forall_mem_append, List.forall_mem_singleton] at hg hcol
      have htext : r.text body = g.text body := by
        apply hcol.2.2
        rw [← hr.2, ← hg.2, hhash]
      obtain ⟨hrs', hrp⟩ := (chained_concat _ _ _).1 hrs
      obtain ⟨hgs', hgp⟩ := (chained_concat _ _ _).1 hgs
      obtain ⟨t, ht⟩ := ih (fun r' hr' => (hcol.1 r' hr').1) hr.1 hg.1 hrs' hgs'
        (same_end_before hsplit hr.1 hg.1 hrp hgp htext)
      refine ⟨t, ?_⟩
      rw [List.map_append, List.map_append, ← ht, List.append_assoc, List.map_singleton, List.map_singleton, htext]

end Tamper

end Lib.HashChain
