import CaptivoAccess.Proofs.PageScripts

/-! A rewritten page is the page with the scripts side by side at one place. Each script is
put in front of the first marker of what the scripts before it have left: none of them
brings a marker, so that is the marker of the page itself. -/

namespace Captivo.Proxy

open Lib.Utf8 Lib.HttpHead Lib.Splice

/-! Markers. -/

/-- The marker stands at the position, in letters of any case. -/
def MarkedAt (marker body : Bytes) (i : ℕ) : Prop := marker.map lowerByte <+: (body.drop i).map lowerByte

def FirstMarked (marker body : Bytes) (i : ℕ) : Prop := MarkedAt marker body i ∧ ∀ j < i, ¬ MarkedAt marker body j

/-- Before the first end of a head; in a page without one before the first end of a body, and else at the start. -/
def Place (body : Bytes) (i : ℕ) : Prop :=
  FirstMarked headEnd body i ∨
    (∀ j, ¬ MarkedAt headEnd body j) ∧ (FirstMarked bodyEnd body i ∨ (∀ j, ¬ MarkedAt bodyEnd body j) ∧ i = 0)

variable {marker body : Bytes} {i : ℕ}

theorem starts_iff_markedAt :
    starts equalFoldByte marker (body.drop i) = true ↔ MarkedAt marker body i :=
  starts_iff_map fun _ _ => decide_eq_true_iff

theorem firstMarked_of_index (h : indexFold body marker = some i) : FirstMarked marker body i := by
  refine ⟨starts_iff_markedAt.1 (starts_of_index h), fun j hj hmarked => ?_⟩
  have hstarts := starts_iff_markedAt.2 hmarked
  rw [clear_of_index h j hj] at hstarts
  cases hstarts

theorem not_markedAt_of_index (h : indexFold body marker = none) (j : ℕ) : ¬ MarkedAt marker body j := by
  intro hmarked
  have hstarts := starts_iff_markedAt.2 hmarked
  rw [clear_of_index_none h (j + 1) j (Nat.lt_succ_self j)] at hstarts
  cases hstarts

/-- The marker that scripts are put in front of. -/
def anchor (body : Bytes) : Option ℕ := (indexFold body headEnd).or (indexFold body bodyEnd)

theorem anchor_le {body : Bytes} (h : anchor body = some i) : i ≤ body.length := by
  rcases Option.or_eq_some_iff.1 h with hhead | ⟨-, hbody⟩
  · exact index_le hhead
  · exact index_le hbody

theorem place_anchor (body : Bytes) : Place body ((anchor body).getD 0) := by
  rw [anchor]
  cases hhead : indexFold body headEnd with
  | some i => exact Or.inl (firstMarked_of_index hhead)
  | none =>
    refine Or.inr ⟨not_markedAt_of_index hhead, ?_⟩
    cases hbody : indexFold body bodyEnd with
    | some i => exact Or.inl (firstMarked_of_index hbody)
    | none => exact Or.inr ⟨not_markedAt_of_index hbody, rfl⟩

theorem injectBeforeBody_eq (body tag : Bytes) : injectBeforeBody body tag = insertAt body tag ((anchor body).getD 0) := by
  rw [injectBeforeBody, anchor]
  cases indexFold body headEnd with
  | some i => rfl
  | none =>
    cases indexFold body bodyEnd with
    | some i => rfl
    | none => rfl

/-! One script. -/

/-- What can be put into a page: no marker begins in it, and none reaches into it. -/
def Insertable (tag : Bytes) : Prop := Whole tag ∧ tag.head? = some 60

theorem indexFold_insertAt {body tag : Bytes} (htag : Insertable tag) (hi : i ≤ body.length) :
    (Clear equalFoldByte headEnd body i → indexFold (insertAt body tag i) headEnd = (indexFold body headEnd).map (· + tag.length)) ∧
    (Clear equalFoldByte bodyEnd body i → indexFold (insertAt body tag i) bodyEnd = (indexFold body bodyEnd).map (· + tag.length)) := by
  obtain ⟨t, rfl⟩ := List.head?_eq_some_iff.1 htag.2
  exact ⟨index_insertAt (List.forall_iff_forall_mem.1 (by decide)) hi htag.1.1,
    index_insertAt (List.forall_iff_forall_mem.1 (by decide)) hi htag.1.2⟩

theorem anchor_injectBeforeBody {tag : Bytes} (htag : Insertable tag) (body : Bytes) :
    anchor (injectBeforeBody body tag) = (anchor body).map (· + tag.length) := by
  rw [injectBeforeBody_eq, anchor, anchor]
  cases hhead : indexFold body headEnd with
  | some i =>
    rw [Option.some_or, Option.getD_some, (indexFold_insertAt htag (index_le hhead)).1 (clear_of_index hhead), hhead]
    rfl
  | none =>
    rw [Option.none_or]
    have hplace : (indexFold body bodyEnd).getD 0 ≤ body.length ∧
        Clear equalFoldByte bodyEnd body ((indexFold body bodyEnd).getD 0) := by
      cases hbody : indexFold body bodyEnd with
      | some i => exact ⟨index_le hbody, clear_of_index hbody⟩
      | none => exact ⟨Nat.zero_le _, clear_of_index_none hbody _⟩
    rw [(indexFold_insertAt htag hplace.1).1 (clear_of_index_none hhead _), (indexFold_insertAt htag hplace.1).2 hplace.2, hhead]
    rfl

/-! All scripts. -/

variable {tags : List Bytes}

theorem foldl_inject_anchored (htags : ∀ t ∈ tags, Insertable t) {body : Bytes}
    (h : anchor body = some i) : tags.foldl injectBeforeBody body = insertAt body tags.flatten i := by
  induction tags generalizing body i with
  | nil => simp [insertAt]
  | cons tag tags ih =>
    have hnext : anchor (injectBeforeBody body tag) = some (i + tag.length) := by
      rw [anchor_injectBeforeBody (htags tag List.mem_cons_self), h]
      rfl
    rw [List.foldl_cons, ih (fun t ht => htags t (List.mem_cons_of_mem tag ht)) hnext, injectBeforeBody_eq, h, Option.getD_some,
      insertAt_insertAt (anchor_le h), List.flatten_cons]

theorem foldl_inject_unanchored (htags : ∀ t ∈ tags, Insertable t) {body : Bytes} (h : anchor body = none) :
    tags.foldl injectBeforeBody body = insertAt body tags.reverse.flatten 0 := by
  induction tags generalizing body with
  | nil => rfl
  | cons tag tags ih =>
    have hnext : anchor (injectBeforeBody body tag) = none := by
      rw [anchor_injectBeforeBody (htags tag List.mem_cons_self), h]
      rfl
    rw [List.foldl_cons, ih (fun t ht => htags t (List.mem_cons_of_mem tag ht)) hnext, injectBeforeBody_eq, h]
    simp [insertAt]

theorem foldl_inject (htags : ∀ t ∈ tags, Insertable t) (body : Bytes) :
    ∃ order : List Bytes, order.Perm tags ∧ tags.foldl injectBeforeBody body = insertAt body order.flatten ((anchor body).getD 0) := by
  cases h : anchor body with
  | some i => exact ⟨tags, List.Perm.refl _, foldl_inject_anchored htags h⟩
  | none => exact ⟨tags.reverse, List.reverse_perm tags, foldl_inject_unanchored htags h⟩

theorem insertable_of_mem_scripts {p : Policy} {s : Bytes} (hs : s ∈ p.scripts) : Insertable s := by
  refine ⟨whole_of_mem_scripts hs, ?_⟩
  simp only [Policy.scripts, List.mem_append, List.mem_ite_nil_right, List.mem_singleton] at hs
  rcases hs with (⟨-, rfl⟩ | ⟨-, rfl⟩) | ⟨-, rfl⟩
  · decide +kernel
  · rw [clipboardScript, List.append_assoc, List.append_assoc, List.head?_append_of_ne_nil _ (by decide +kernel)]
    decide +kernel
  · rw [watermarkScript, List.append_assoc, List.head?_append_of_ne_nil _ (by decide +kernel)]
    decide +kernel

/-! The response. -/

theorem foldl_ite {on : Prop} [Decidable on] (tag body : Bytes) :
    (if on then [tag] else []).foldl injectBeforeBody body = if on then injectBeforeBody body tag else body := by
  split_ifs
  · rfl
  · rfl

theorem valuesOf_set (w : List Field) (k : String) (v : Text) : valuesOf (del w k ++ [(k.toList, v)]) k.toList = [v] := by
  have hdel : (del w k).filter (·.1 = k.toList) = [] := by
    refine List.filter_eq_nil_iff.2 fun f hf => ?_
    simpa using (List.mem_filter.1 hf).2
  rw [valuesOf, List.filter_append, hdel]
  simp

theorem writeProxyResponse_rewritten {uni : Unicode} {p : Policy} {w : List Field} {resp : Reply}
    (hhtml : isHTMLContentType uni resp.header = true) (hplain : isCompressed uni resp.header = false)
    (hsize : resp.body.length ≤ maxInjectableBodyBytes) (hscripts : p.scripts ≠ []) :
    (writeProxyResponse uni p w resp).body = p.scripts.foldl injectBeforeBody resp.body ∧
    valuesOf (writeProxyResponse uni p w resp).fields "Content-Length".toList =
      [(toString (writeProxyResponse uni p w resp).body.length).toList] := by
  have hinject := Bool.not_eq_false _ ▸ mt scripts_eq_nil_iff.2 hscripts
  have hbuffered : ¬ ((!(p.recordSessions || clipboardRestricted p.clipboardMode || decide (p.watermarkText ≠ [])) ||
      !isHTMLContentType uni resp.header || isCompressed uni resp.header) = true) := by
    rw [hinject, hhtml, hplain]
    decide
  have hwritten : writeProxyResponse uni p w resp = _ := (if_neg hbuffered).trans (if_neg (Nat.not_lt.2 hsize))
  rw [hwritten]
  refine ⟨?_, valuesOf_set _ _ _⟩
  rw [Policy.scripts, List.foldl_append, List.foldl_append, foldl_ite, foldl_ite, foldl_ite]

/-- The page that is written is the page with the scripts of the policy, each once, at one place; without them it is the page
again. Its length is declared; where there is no script, the response goes out as it came. -/
theorem page_with_scripts (uni : Unicode) (p : Policy) (w : List Field) (resp : Reply)
    (hhtml : isHTMLContentType uni resp.header = true) (hplain : isCompressed uni resp.header = false)
    (hsize : resp.body.length ≤ maxInjectableBodyBytes) :
    ∃ (i : ℕ) (order : List Bytes), Place resp.body i ∧ order.Perm p.scripts ∧
      (writeProxyResponse uni p w resp).body = resp.body.take i ++ order.flatten ++ resp.body.drop i ∧
      (writeProxyResponse uni p w resp).body.take i ++
        (writeProxyResponse uni p w resp).body.drop (i + order.flatten.length) = resp.body ∧
      (p.scripts ≠ [] → valuesOf (writeProxyResponse uni p w resp).fields "Content-Length".toList =
        [(toString (writeProxyResponse uni p w resp).body.length).toList]) ∧
      (p.scripts = [] → writeProxyResponse uni p w resp = ⟨resp.status, w, resp.body⟩) := by
  have hle : (anchor resp.body).getD 0 ≤ resp.body.length := by
    cases h : anchor resp.body with
    | some i => exact anchor_le h
    | none => exact Nat.zero_le _
  have hnone : p.scripts = [] → writeProxyResponse uni p w resp = ⟨resp.status, w, resp.body⟩ :=
    fun h => writeProxyResponse_streamed (Or.inl h)
  have hbody : (writeProxyResponse uni p w resp).body = p.scripts.foldl injectBeforeBody resp.body := by
    by_cases h : p.scripts = []
    · rw [hnone h, h]
      rfl
    · exact (writeProxyResponse_rewritten hhtml hplain hsize h).1
  obtain ⟨order, horder, hfold⟩ := foldl_inject (fun s hs => insertable_of_mem_scripts hs) resp.body
  refine ⟨(anchor resp.body).getD 0, order, place_anchor resp.body, horder, hbody.trans hfold, ?_, ?_, hnone⟩
  · rw [hbody.trans hfold]
    exact cut_insertAt hle _
  · exact fun h => (writeProxyResponse_rewritten hhtml hplain hsize h).2

/-- A page with two ends of a head, the first in capitals, that is recorded and marked with the address of its user. -/
theorem page_with_scripts_capitals :
    ∃ (i : ℕ) (order : List Bytes), Place (bytesOf "<p></HEAD></head>") i ∧
      order.Perm [recorderScriptTag, watermarkScript "</head>@example.org".toList] ∧
      (writeProxyResponse asciiTables ⟨true, [], false, true, "</head>@example.org".toList⟩ []
        ⟨200, pageHeader, bytesOf "<p></HEAD></head>"⟩).body =
          (bytesOf "<p></HEAD></head>").take i ++ order.flatten ++ (bytesOf "<p></HEAD></head>").drop i := by
  obtain ⟨i, order, hplace, horder, hbody, -⟩ := page_with_scripts asciiTables
    ⟨true, [], false, true, "</head>@example.org".toList⟩ [] ⟨200, pageHeader, bytesOf "<p></HEAD></head>"⟩
    (by decide +kernel) (by decide +kernel) (by decide +kernel)
  exact ⟨i, order, hplace, horder, hbody⟩

/-- A page that no script goes into has the header it came with: here that declares no length. -/
theorem plain_page_without_length :
    let resp : Reply := ⟨200, pageHeader, List.replicate 4096 60⟩
    isHTMLContentType asciiTables resp.header = true ∧ isCompressed asciiTables resp.header = false ∧
      resp.body.length ≤ maxInjectableBodyBytes ∧
      (writeProxyResponse asciiTables ⟨false, [], false, false, []⟩ [] resp).body = resp.body ∧
      valuesOf (writeProxyResponse asciiTables ⟨false, [], false, false, []⟩ [] resp).fields "Content-Length".toList = [] := by
  intro resp
  have hout : writeProxyResponse asciiTables ⟨false, [], false, false, []⟩ [] resp = ⟨200, [], resp.body⟩ :=
    writeProxyResponse_streamed (Or.inl (by decide +kernel))
  have hsize : resp.body.length ≤ maxInjectableBodyBytes := by
    rw [List.length_replicate]
    decide
  rw [hout]
  exact ⟨by decide +kernel, by decide +kernel, hsize, rfl, rfl⟩

end Captivo.Proxy
