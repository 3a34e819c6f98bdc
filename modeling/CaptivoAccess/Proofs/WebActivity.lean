import CaptivoAccess.Lib.Separated
import CaptivoAccess.Spec.WebActivity

/-! Listing the active spans removes spans that a later touch would not go on with anyway: it
changes no touch, and lists what a tracker that removes nothing takes for active. -/

namespace Captivo.WebActivity

open Lib.Dns

/-- The tracker without pruning: for each user and site the last span there was. -/
abbrev Reference := Text → Text → Option WebSessionInfo

/-- A touch goes on with a span that has not been idle for longer than the period. -/
def goesOn (idle now : ℤ) (e : WebSessionInfo) : Bool := now - e.lastSeen ≤ idle

def spanAfter (idle : ℤ) (r : Touched) (e : Option WebSessionInfo) : WebSessionInfo :=
  match e.filter (goesOn idle r.now) with
  | some e => { e with lastSeen := r.now, host := r.host }
  | none => ⟨r.userID, r.siteID, r.host, r.now, r.now⟩

def startsSpan (idle : ℤ) (r : Touched) (e : Option WebSessionInfo) : Bool := (e.filter (goesOn idle r.now)).isNone

def Reference.touch (idle : ℤ) (ref : Reference) (r : Touched) : Reference := fun u s =>
  if u = r.userID ∧ s = r.siteID ∧ u ≠ [] ∧ s ≠ [] then some (spanAfter idle r (ref u s)) else ref u s

def Reference.call (idle : ℤ) (ref : Reference) : TrackerCall → Reference
  | .touch r => ref.touch idle r
  | .list _ _ => ref

def reference (idle : ℤ) (calls : List TrackerCall) : Reference := calls.foldl (Reference.call idle) fun _ _ => none

def Free (id : Text) : Prop := webKeySep ∉ id

instance (id : Text) : Decidable (Free id) := inferInstanceAs (Decidable (_ ∉ _))

theorem webKey_inj {u s u' s' : Text} (hu : Free u) (hs : Free s) (h : webKey u' s' = webKey u s) : u' = u ∧ s' = s := by
  have hjoin : [webKeySep].intercalate [u', s'] = [webKeySep].intercalate [u, s] := by
    simpa [webKey, List.intercalate_cons_of_ne_nil] using h
  have hfree : ∀ id ∈ [u, s], webKeySep ∉ id := by
    simpa using (⟨hu, hs⟩ : webKeySep ∉ u ∧ webKeySep ∉ s)
  simpa using Lib.Separated.eq_of_join_eq hfree (by simp) (by simp) hjoin

section Map

variable {t : WebActivityTracker} {e e' : WebSessionInfo} {key : Text}

theorem get_mem (h : t.get key = some e) : e ∈ t.m ∧ e.key = key := by
  have hkey := List.find?_some h
  exact ⟨List.mem_of_find?_eq_some h, of_decide_eq_true hkey⟩

theorem get_of_mem (h : e ∈ t.m) : t.get e.key = some e := by
  cases hget : t.get e.key with
  | none => exact absurd (by simp) (List.find?_eq_none.1 hget e h)
  | some e' =>
    obtain ⟨hmem, hkey⟩ := get_mem hget
    rw [List.inj_on_of_nodup_map t.keyed hmem h hkey]

theorem get_put (t : WebActivityTracker) (e : WebSessionInfo) (key : Text) :
    (t.put e).get key = if e.key = key then some e else t.get key := by
  rw [WebActivityTracker.get, WebActivityTracker.put, List.find?_cons]
  by_cases hkey : e.key = key
  · simp [hkey]
  · rw [decide_eq_false hkey, if_neg hkey, List.find?_filter, WebActivityTracker.get]
    refine congrArg (List.find? · t.m) (funext fun x => ?_)
    by_cases hx : x.key = key
    · simp [hx, Ne.symm hkey]
    · simp [hx]

theorem mem_put (h : e ∈ (t.put e').m) : e = e' ∨ e ∈ t.m := by
  obtain rfl | h := List.mem_cons.1 h
  · exact Or.inl rfl
  · exact Or.inr (List.mem_filter.1 h).1

end Map

theorem touch_eq {idle : ℤ} {t : WebActivityTracker} {r : Touched} (huser : r.userID ≠ []) (hsite : r.siteID ≠ []) :
    touch idle t r = (t.put (spanAfter idle r (t.get (webKey r.userID r.siteID))),
      startsSpan idle r (t.get (webKey r.userID r.siteID))) := by
  rw [touch, if_neg (not_or.2 ⟨huser, hsite⟩)]
  cases hget : t.get (webKey r.userID r.siteID) with
  | none => rfl
  | some e =>
    by_cases hidle : r.now - e.lastSeen ≤ idle
    · simp [spanAfter, startsSpan, Option.filter, goesOn, hidle]
    · simp [spanAfter, startsSpan, Option.filter, goesOn, hidle]

/-- The tracker has the span of the reference, or none where it has been idle for too long. -/
structure Agrees (idle now : ℤ) (t : WebActivityTracker) (ref : Reference) : Prop where
  spans : ∀ u s, Free u → Free s → t.get (webKey u s) = ref u s ∨
    t.get (webKey u s) = none ∧ ∀ e ∈ ref u s, goesOn idle now e = false
  ids : ∀ e ∈ t.m, Free e.userID ∧ Free e.siteID
  own : ∀ u s, ∀ e ∈ ref u s, e.userID = u ∧ e.siteID = s ∧ Free u ∧ Free s

section Steps

variable {idle now : ℤ} {t : WebActivityTracker} {ref : Reference}

theorem goesOn_earlier {later : ℤ} (hle : now ≤ later) {e : WebSessionInfo} (h : goesOn idle now e = false) : goesOn idle later e = false := by
  simp only [goesOn, decide_eq_false_iff_not] at h ⊢
  omega

theorem Agrees.wait (h : Agrees idle now t ref) {later : ℤ} (hle : now ≤ later) : Agrees idle later t ref :=
  ⟨fun u s hu hs => (h.spans u s hu hs).imp_right fun hnone => ⟨hnone.1, fun e he => goesOn_earlier hle (hnone.2 e he)⟩, h.ids, h.own⟩

theorem Agrees.filter_eq (h : Agrees idle now t ref) {u s : Text} (hu : Free u) (hs : Free s) :
    (t.get (webKey u s)).filter (goesOn idle now) = (ref u s).filter (goesOn idle now) := by
  obtain hsame | ⟨hnone, hidle⟩ := h.spans u s hu hs
  · rw [hsame]
  · rw [hnone]
    cases hr : ref u s with
    | none => rfl
    | some e => simp [Option.filter, hidle e hr]

theorem spanAfter_own {r : Touched} {e : Option WebSessionInfo} (h : ∀ e' ∈ e, e'.userID = r.userID ∧ e'.siteID = r.siteID) :
    (spanAfter idle r e).userID = r.userID ∧ (spanAfter idle r e).siteID = r.siteID := by
  rw [spanAfter]
  cases hf : e.filter (goesOn idle r.now) with
  | none => exact ⟨rfl, rfl⟩
  | some e' => exact h e' (Option.filter_eq_some_iff.1 hf).1

theorem agrees_touch (h : Agrees idle now t ref) {r : Touched} (hnow : r.now = now) (huser : Free r.userID) (hsite : Free r.siteID) :
    Agrees idle now (touch idle t r).1 (ref.touch idle r) := by
  by_cases hempty : r.userID = [] ∨ r.siteID = []
  · have href : ref.touch idle r = ref := by
      funext u s
      rw [Reference.touch, if_neg]
      intro ⟨hu, hs, hune, hsne⟩
      obtain huser | hsite := hempty
      · exact hune (hu.trans huser)
      · exact hsne (hs.trans hsite)
    rw [href, touch, if_pos hempty]
    exact h
  · obtain ⟨huserne, hsitene⟩ := not_or.1 hempty
    have hspan : spanAfter idle r (t.get (webKey r.userID r.siteID)) = spanAfter idle r (ref r.userID r.siteID) := by
      rw [spanAfter, spanAfter, hnow, h.filter_eq huser hsite]
    have hown : (spanAfter idle r (ref r.userID r.siteID)).userID = r.userID ∧ (spanAfter idle r (ref r.userID r.siteID)).siteID = r.siteID :=
      spanAfter_own fun e he => ⟨(h.own _ _ e he).1, (h.own _ _ e he).2.1⟩
    have hkey : (spanAfter idle r (ref r.userID r.siteID)).key = webKey r.userID r.siteID := by
      rw [WebSessionInfo.key, hown.1, hown.2]
    rw [touch_eq huserne hsitene, hspan]
    refine ⟨fun u s hu hs => ?_, fun e he => ?_, fun u s e he => ?_⟩
    · rw [get_put, hkey, Reference.touch]
      by_cases hpair : u = r.userID ∧ s = r.siteID
      · obtain ⟨rfl, rfl⟩ := hpair
        rw [if_pos rfl, if_pos ⟨rfl, rfl, huserne, hsitene⟩]
        exact Or.inl rfl
      · have hne : ¬ webKey r.userID r.siteID = webKey u s := fun hsame =>
          hpair ⟨(webKey_inj hu hs hsame).1.symm, (webKey_inj hu hs hsame).2.symm⟩
        rw [if_neg hne, if_neg fun hcond => hpair ⟨hcond.1, hcond.2.1⟩]
        exact h.spans u s hu hs
    · obtain rfl | he := mem_put he
      · rw [hown.1, hown.2]
        exact ⟨huser, hsite⟩
      · exact h.ids e he
    · rw [Reference.touch] at he
      split_ifs at he with hcond
      · obtain ⟨rfl, rfl, -, -⟩ := hcond
        cases he
        exact ⟨hown.1, hown.2, huser, hsite⟩
      · exact h.own u s e he

/-- In a map that was filtered, what is under a key is what was, if it passed. -/
theorem get_list (order : MapOrder) (key : Text) :
    ((list idle t now order).1.get key) = (t.get key).filter (goesOn idle now) := by
  have hpass : ∀ e : WebSessionInfo, (!decide (e.lastSeen < now - idle)) = goesOn idle now e := by
    intro e
    rw [goesOn, ← decide_not]
    exact decide_eq_decide.2 (by omega)
  have hmem : ∀ e, e ∈ (list idle t now order).1.m ↔ e ∈ t.m ∧ goesOn idle now e = true := by
    intro e
    rw [← hpass]
    exact List.mem_filter
  cases hget : (list idle t now order).1.get key with
  | some e =>
    obtain ⟨hin, rfl⟩ := get_mem hget
    obtain ⟨hold, hon⟩ := (hmem e).1 hin
    rw [get_of_mem hold, Option.filter_some_pos hon]
  | none =>
    cases hold : t.get key with
    | none => rfl
    | some e =>
      obtain ⟨hin, rfl⟩ := get_mem hold
      refine (Option.filter_some_neg (Bool.of_not_eq_true fun hon => ?_)).symm
      rw [get_of_mem ((hmem e).2 ⟨hin, hon⟩)] at hget
      cases hget

theorem agrees_list (h : Agrees idle now t ref) (order : MapOrder) : Agrees idle now (list idle t now order).1 ref := by
  refine ⟨fun u s hu hs => ?_, fun e he => h.ids e (List.mem_filter.1 he).1, h.own⟩
  rw [get_list, h.filter_eq hu hs]
  cases hr : ref u s with
  | none => exact Or.inl rfl
  | some e =>
    by_cases hon : goesOn idle now e = true
    · exact Or.inl (Option.filter_some_pos hon)
    · have hoff := Bool.of_not_eq_true hon
      refine Or.inr ⟨Option.filter_some_neg hoff, fun e' he' => ?_⟩
      cases he'
      exact hoff

end Steps

/-! Whole sequences of calls. -/

/-- The ids that the calls use do not contain the separator of the keys. -/
def Separable (c : TrackerCall) : Prop :=
  match c with
  | .touch r => Free r.userID ∧ Free r.siteID
  | .list _ _ => True

def InOrder (calls : List TrackerCall) : Prop := calls.Pairwise fun c c' => c.now ≤ c'.now

/-- Which touches start a span, by the reference. -/
def starts (idle : ℤ) : Reference → List TrackerCall → List Bool
  | _, [] => []
  | ref, .touch r :: calls =>
    (if r.userID = [] ∨ r.siteID = [] then false else startsSpan idle r (ref r.userID r.siteID)) :: starts idle (ref.touch idle r) calls
  | ref, .list _ _ :: calls => starts idle ref calls

section Run

variable {idle now : ℤ} {t : WebActivityTracker} {ref : Reference} {calls : List TrackerCall}

theorem agrees_call (h : Agrees idle now t ref) {c : TrackerCall} (hle : now ≤ c.now) (hc : Separable c) :
    Agrees idle c.now (call idle t c) (ref.call idle c) := by
  have hnow := h.wait hle
  cases c with
  | touch r => exact agrees_touch hnow rfl hc.1 hc.2
  | list time order => exact agrees_list hnow order

theorem touch_result (h : Agrees idle now t ref) {r : Touched} (hnow : r.now = now) (huser : Free r.userID) (hsite : Free r.siteID) :
    (touch idle t r).2 = if r.userID = [] ∨ r.siteID = [] then false else startsSpan idle r (ref r.userID r.siteID) := by
  split_ifs with hempty
  · rw [touch, if_pos hempty]
  · obtain ⟨huserne, hsitene⟩ := not_or.1 hempty
    rw [touch_eq huserne hsitene, startsSpan, startsSpan, hnow, h.filter_eq huser hsite]

theorem touches_eq_starts (h : Agrees idle now t ref) (hstart : ∀ c ∈ calls, now ≤ c.now) (horder : InOrder calls)
    (hsep : ∀ c ∈ calls, Separable c) : touches idle t calls = starts idle ref calls := by
  induction calls generalizing now t ref with
  | nil => rfl
  | cons c calls ih =>
    obtain ⟨hlater, horder⟩ := List.pairwise_cons.1 horder
    obtain ⟨hc, hsep⟩ := List.forall_mem_cons.1 hsep
    have hle := hstart c List.mem_cons_self
    have hrest := ih (agrees_call h hle hc) hlater horder hsep
    cases c with
    | touch r =>
      have hresult := touch_result (h.wait hle) rfl hc.1 hc.2
      rw [touches, starts, hresult]
      exact congrArg (_ :: ·) hrest
    | list time order => exact hrest

theorem starts_filter (idle : ℤ) (ref : Reference) (calls : List TrackerCall) :
    starts idle ref (calls.filter TrackerCall.isTouch) = starts idle ref calls := by
  induction calls generalizing ref with
  | nil => rfl
  | cons c calls ih =>
    cases c with
    | touch r => exact congrArg (_ :: ·) (ih _)
    | list time order => exact ih ref

theorem agrees_start (now : ℤ) : Agrees idle now NewWebActivityTracker fun _ _ => none :=
  ⟨fun _ _ _ _ => Or.inl rfl, fun _ he => absurd he List.not_mem_nil, fun _ _ _ he => absurd he (by simp)⟩

theorem agrees_run (h : ∀ c ∈ calls, c.now ≤ now) (horder : InOrder calls) (hsep : ∀ c ∈ calls, Separable c) :
    Agrees idle now (run idle calls) (reference idle calls) := by
  induction calls using List.reverseRecOn generalizing now with
  | nil => exact agrees_start now
  | append_singleton calls c ih =>
    obtain ⟨horder, -, hbefore⟩ := List.pairwise_append.1 horder
    have hcalls : Agrees idle c.now (run idle calls) (reference idle calls) :=
      ih (fun c' hc' => hbefore c' hc' c List.mem_cons_self) horder fun c' hc' => hsep c' (List.mem_append_left _ hc')
    have hcall := agrees_call hcalls le_rfl (hsep c (List.mem_append_right _ List.mem_cons_self))
    have hdone := hcall.wait (h c (List.mem_append_right _ List.mem_cons_self))
    rw [run, reference, List.foldl_append, List.foldl_append]
    exact hdone

theorem mem_list (h : Agrees idle now t ref) (order : MapOrder) (e : WebSessionInfo) :
    e ∈ (list idle t now order).2 ↔ ∃ u s, ref u s = some e ∧ now - e.lastSeen ≤ idle := by
  have hmem : e ∈ (list idle t now order).2 ↔ e ∈ (list idle t now order).1.m := by
    rw [list, List.mem_insertionSort]
    exact (order.perm _).mem_iff
  rw [hmem]
  constructor
  · intro he
    obtain ⟨huser, hsite⟩ := (agrees_list h order).ids e he
    have hget := get_of_mem he
    rw [WebSessionInfo.key, get_list, h.filter_eq huser hsite] at hget
    obtain ⟨href, hon⟩ := Option.filter_eq_some_iff.1 hget
    exact ⟨_, _, href, of_decide_eq_true hon⟩
  · intro ⟨u, s, href, hon⟩
    obtain ⟨-, -, hu, hs⟩ := h.own u s e href
    have hgoes : goesOn idle now e = true := decide_eq_true hon
    have hget : (list idle t now order).1.get (webKey u s) = some e := by
      rw [get_list, h.filter_eq hu hs, href, Option.filter_some_pos hgoes]
    exact (get_mem hget).1

theorem nodup_list (idle now : ℤ) (t : WebActivityTracker) (order : MapOrder) : (list idle t now order).2.Nodup := by
  have hkept : (list idle t now order).1.m.Nodup := (list idle t now order).1.keyed.of_map _
  exact ((List.perm_insertionSort _ _).trans (order.perm _)).nodup_iff.2 hkept

theorem sorted_list (idle now : ℤ) (t : WebActivityTracker) (order : MapOrder) :
    (list idle t now order).2.Pairwise fun a b => b.startedAt ≤ a.startedAt := by
  have : Std.Total fun a b : WebSessionInfo => b.startedAt ≤ a.startedAt := ⟨fun a b => le_total _ _⟩
  have : IsTrans WebSessionInfo fun a b => b.startedAt ≤ a.startedAt := ⟨fun a b c hab hbc => hbc.trans hab⟩
  exact List.pairwise_insertionSort _ _

end Run

/-- For every sequence of calls in the order of their times, with ids that are free of the separator: the touches have the results
that they have without the listings among them, and each listing has, once and newest first, the spans that are active by the
reference, which prunes nothing. -/
theorem listing_is_unseen (idle : ℤ) (calls : List TrackerCall) (horder : InOrder calls) (hsep : ∀ c ∈ calls, Separable c) :
    touches idle NewWebActivityTracker calls = touches idle NewWebActivityTracker (calls.filter TrackerCall.isTouch) ∧
      ∀ pre now order post, calls = pre ++ .list now order :: post →
        (list idle (run idle pre) now order).2.Nodup ∧
          (list idle (run idle pre) now order).2.Pairwise (fun a b => b.startedAt ≤ a.startedAt) ∧
          ∀ e, e ∈ (list idle (run idle pre) now order).2 ↔
            ∃ u s, reference idle pre u s = some e ∧ now - e.lastSeen ≤ idle := by
  refine ⟨?_, ?_⟩
  · have htouches : ∀ calls, InOrder calls → (∀ c ∈ calls, Separable c) →
        touches idle NewWebActivityTracker calls = starts idle (fun _ _ => none) calls := by
      intro calls horder hsep
      cases calls with
      | nil => rfl
      | cons c calls =>
        obtain ⟨hlater, -⟩ := List.pairwise_cons.1 horder
        exact touches_eq_starts (agrees_start c.now) (List.forall_mem_cons.2 ⟨le_rfl, hlater⟩) horder hsep
    rw [htouches calls horder hsep, htouches _ (horder.sublist List.filter_sublist) fun c hc => hsep c (List.mem_filter.1 hc).1,
      starts_filter]
  · intro pre now order post hcalls
    rw [hcalls] at horder hsep
    obtain ⟨hpre, -, hbefore⟩ := List.pairwise_append.1 horder
    have hagrees : Agrees idle now (run idle pre) (reference idle pre) :=
      agrees_run (fun c hc => hbefore c hc _ List.mem_cons_self) hpre fun c hc => hsep c (List.mem_append_left _ hc)
    exact ⟨nodup_list _ _ _ _, sorted_list _ _ _ _, mem_list hagrees order⟩

/-- Two requests for a page with a look at the list between them, a while before the second. -/
theorem listing_is_unseen_wiki :
    let user := "u1".toList
    let wiki := "s1".toList
    let asWritten : MapOrder := ⟨id, fun _ => List.Perm.refl _⟩
    let calls : List TrackerCall := [.touch ⟨0, user, wiki, "wiki".toList⟩, .list 70 asWritten, .touch ⟨80, user, wiki, "wiki".toList⟩]
    touches 60 NewWebActivityTracker calls = touches 60 NewWebActivityTracker (calls.filter TrackerCall.isTouch) ∧
      touches 60 NewWebActivityTracker calls = [true, true] := by
  intro user wiki asWritten calls
  have horder : InOrder calls := by simp [InOrder, calls, TrackerCall.now]
  have hsep : ∀ c ∈ calls, Separable c := by
    have hfree : Free user ∧ Free wiki := ⟨by decide, by decide⟩
    simp [calls, Separable, hfree]
  exact ⟨(listing_is_unseen 60 calls horder hsep).1, by decide⟩

end Captivo.WebActivity
