import CaptivoAccess.Spec.ProxyResponse

/-! Which pages get the scripts that a site's policy asks for. What is put into a page
stays whole when the next script is put in; a page that comes compressed gets none. The
request asks for an uncompressed page only where sessions are recorded. -/

namespace Captivo.Proxy

open Lib.Utf8 Lib.HttpHead Lib.Splice

/-! The scripts hold no marker. -/

/-- No marker begins in the script. -/
def Whole (s : Bytes) : Prop := isSealed equalFoldByte headEnd s = true ∧ isSealed equalFoldByte bodyEnd s = true

instance (s : Bytes) : Decidable (Whole s) :=
  inferInstanceAs (Decidable (isSealed equalFoldByte headEnd s = true ∧ isSealed equalFoldByte bodyEnd s = true))

theorem whole_recorderScriptTag : Whole recorderScriptTag := by decide +kernel

theorem lowerByte_eq_lt {b : UInt8} (h : lowerByte b = 60) : b = 60 := by
  unfold lowerByte at h
  split_ifs at h with hb
  · simp only [Bool.and_eq_true, decide_eq_true_eq, UInt8.le_iff_toNat_le, UInt8.toNat_ofNat] at hb
    have hval := congrArg UInt8.toNat h
    simp only [UInt8.toNat_add, UInt8.toNat_ofNat] at hval
    omega
  · exact h

theorem whole_append {x s : Bytes} (hx : 60 ∉ x) (hs : Whole s) : Whole (x ++ s) := by
  have hne : ∀ b ∈ x, equalFoldByte b 60 = false := by
    intro b hb
    refine decide_eq_false fun h => hx ?_
    rwa [lowerByte_eq_lt h] at hb
  exact ⟨isSealed_append hne hs.1, isSealed_append hne hs.2⟩

theorem whole_open {x s : Bytes} (hx : 60 ∉ x) (hs : Whole s) : Whole (60 :: 115 :: (x ++ s)) := by
  have hrest : Whole ((115 :: x) ++ s) := whole_append (by simpa using hx) hs
  exact ⟨isSealed_cons_cons (by decide) hrest.1 60, isSealed_cons_cons (by decide) hrest.2 60⟩

theorem not_mem_ite {α : Type} {x : α} {on : Prop} [Decidable on] {a b : List α} (ha : on → x ∉ a) (hb : ¬ on → x ∉ b) :
    x ∉ if on then a else b := by
  split_ifs with h
  · exact ha h
  · exact hb h

theorem whole_clipboardScript (mode : Text) : Whole (clipboardScript mode) := by
  have hopen : bytesOf "<script>(function()\x7bfunction b(e)\x7be.preventDefault();e.stopImmediatePropagation();\x7d" =
      60 :: 115 :: bytesOf "cript>(function()\x7bfunction b(e)\x7be.preventDefault();e.stopImmediatePropagation();\x7d" := by
    decide +kernel
  rw [clipboardScript, hopen]
  simp only [List.cons_append]
  refine whole_open (fun h => ?_) (by decide +kernel)
  rcases List.mem_append.1 h with h | h
  · rcases List.mem_append.1 h with h | h
    · exact absurd h (by decide +kernel)
    · exact not_mem_ite (fun _ => by decide +kernel) (fun _ => List.not_mem_nil) h
  · exact not_mem_ite (fun _ => by decide +kernel) (fun _ => List.not_mem_nil) h

/-- The characters of escapes. -/
def escapeChars : List Char := "\\\"nrtbfu0123456789abcdef".toList

theorem hexDigit_mem : ∀ n < 16, hexDigit n ∈ escapeChars := by decide

theorem lt_of_hexEscaped {c : Char} (h : (decide (c.toNat < 0x20) || decide (c = '<') || decide (c = '>') || decide (c = '&')) = true) :
    c.toNat < 0x80 := by
  simp only [Bool.or_eq_true, decide_eq_true_eq] at h
  rcases h with ((hlt | rfl) | rfl) | rfl
  · omega
  · decide
  · decide
  · decide

theorem not_mem_jsonRune {x c : Char} (hx : x ∉ escapeChars) (hc : x ≠ c) : x ∉ jsonRune c := by
  have hescape : ∀ {t : Text}, t ⊆ escapeChars → x ∉ t := fun hsub h => hx (hsub h)
  unfold jsonRune
  refine not_mem_ite (fun _ => hescape (by decide)) fun _ => not_mem_ite (fun _ => hescape (by decide)) fun _ =>
    not_mem_ite (fun _ => hescape (by decide)) fun _ => not_mem_ite (fun _ => hescape (by decide)) fun _ =>
    not_mem_ite (fun _ => hescape (by decide)) fun _ => not_mem_ite (fun _ => hescape (by decide)) fun _ =>
    not_mem_ite (fun _ => hescape (by decide)) fun _ => not_mem_ite (fun hhex => hescape ?_) fun _ =>
    not_mem_ite (fun _ => hescape (by decide)) fun _ => not_mem_ite (fun _ => hescape (by decide)) fun _ => ?_
  · have hlt := lt_of_hexEscaped hhex
    refine List.append_subset.2 ⟨by decide, List.cons_subset.2 ⟨hexDigit_mem _ (by omega), List.cons_subset.2
      ⟨hexDigit_mem _ (by omega), List.nil_subset _⟩⟩⟩
  · exact fun h => hc (List.mem_singleton.1 h)

theorem not_mem_jsonRune_of_escaped {x : Char} (hx : x ∉ escapeChars) (hself : x ∉ jsonRune x) (c : Char) : x ∉ jsonRune c := by
  by_cases hc : x = c
  · exact hc ▸ hself
  · exact not_mem_jsonRune hx hc

theorem lt_not_mem_quoted (s : Text) : 60 ∉ quoted s := by
  intro h
  obtain ⟨c, hc, hb⟩ := List.mem_flatMap.1 h
  have hlt : c = '<' := by
    apply Char.ext
    have hval := mem_encodeRune_lt hb (by decide)
    exact UInt32.toNat_inj.1 hval
  rw [hlt] at hc
  rcases List.mem_append.1 hc with hc | hc
  · rcases List.mem_cons.1 hc with hc | hc
    · exact absurd hc (by decide)
    · obtain ⟨d, -, hd⟩ := List.mem_flatMap.1 hc
      exact not_mem_jsonRune_of_escaped (by decide) (by decide) d hd
  · exact absurd hc (by decide)

theorem whole_watermarkTail : Whole watermarkTail := by decide +kernel

theorem whole_watermarkScript (s : Text) : Whole (watermarkScript s) := by
  have hopen : bytesOf "<script>(function()\x7btry\x7bvar t=" = 60 :: 115 :: bytesOf "cript>(function()\x7btry\x7bvar t=" := by
    decide +kernel
  rw [watermarkScript, hopen, List.append_assoc]
  exact whole_open (by decide +kernel) (whole_append (lt_not_mem_quoted s) whole_watermarkTail)

variable {p : Policy}

theorem whole_of_mem_scripts {s : Bytes} (hs : s ∈ p.scripts) : Whole s := by
  simp only [Policy.scripts, List.mem_append] at hs
  rcases hs with (hs | hs) | hs
  all_goals split_ifs at hs
  · exact List.mem_singleton.1 hs ▸ whole_recorderScriptTag
  · exact absurd hs List.not_mem_nil
  · exact List.mem_singleton.1 hs ▸ whole_clipboardScript _
  · exact absurd hs List.not_mem_nil
  · exact List.mem_singleton.1 hs ▸ whole_watermarkScript _
  · exact absurd hs List.not_mem_nil

/-! Injection. -/

theorem tag_infix_injectBeforeBody (body tag : Bytes) : tag <:+: injectBeforeBody body tag := by
  unfold injectBeforeBody
  split
  · exact tag_infix_insertAt _ _ _
  · split
    · exact tag_infix_insertAt _ _ _
    · exact (List.prefix_append tag body).isInfix

theorem infix_injectBeforeBody {body s : Bytes} (hwhole : Whole s) (hs : s <:+: body) (tag : Bytes) :
    s <:+: injectBeforeBody body tag := by
  unfold injectBeforeBody
  split
  · rename_i i hi
    exact infix_insertAt hwhole.1 (starts_of_index hi) hs tag
  · split
    · rename_i i hi
      exact infix_insertAt hwhole.2 (starts_of_index hi) hs tag
    · exact hs.trans (List.suffix_append tag body).isInfix

theorem infix_inject_or {body tag : Bytes} {on : Prop} [Decidable on] {s : Bytes} (hwhole : Whole s)
    (hs : s <:+: body ∨ s ∈ (if on then [tag] else [])) :
    s <:+: if on then injectBeforeBody body tag else body := by
  split_ifs at hs ⊢
  · rcases hs with hs | hs
    · exact infix_injectBeforeBody hwhole hs tag
    · rw [List.mem_singleton.1 hs]
      exact tag_infix_injectBeforeBody body tag
  · exact hs.resolve_right List.not_mem_nil

variable {uni : Unicode}

theorem scripts_infix_of_plain {w : List Field} {resp : Reply}
    (hhtml : isHTMLContentType uni resp.header = true) (hplain : isCompressed uni resp.header = false)
    (hsize : resp.body.length ≤ maxInjectableBodyBytes) {s : Bytes} (hs : s ∈ p.scripts) :
    s <:+: (writeProxyResponse uni p w resp).body := by
  have hwhole := whole_of_mem_scripts hs
  simp only [Policy.scripts, List.mem_append] at hs
  have hinject : (p.recordSessions || clipboardRestricted p.clipboardMode || p.watermarkText ≠ []) = true := by
    by_contra hoff
    simp only [Bool.or_eq_true, decide_eq_true_eq, not_or] at hoff
    simp [hoff.1.1, hoff.1.2, hoff.2] at hs
  simp only [writeProxyResponse, hinject, hhtml, hplain, Bool.not_true, Bool.or_self, Bool.false_eq_true, if_false,
    not_lt.2 hsize]
  refine infix_inject_or hwhole ?_
  rcases hs with hs | hs
  · exact Or.inl (infix_inject_or hwhole (hs.imp_left fun hs => infix_inject_or hwhole (Or.inr hs)))
  · exact Or.inr hs

theorem scripts_eq_nil_iff :
    p.scripts = [] ↔ (p.recordSessions || clipboardRestricted p.clipboardMode || p.watermarkText ≠ []) = false := by
  simp [Policy.scripts, and_assoc]

/-- The response is not rewritten: there is nothing to put in, it is no page, or it is a larger one than is rewritten. -/
def Streamed (uni : Unicode) (p : Policy) (header : Header) (length : ℕ) : Prop :=
  p.scripts = [] ∨ isHTMLContentType uni header = false ∨ isCompressed uni header = true ∨ maxInjectableBodyBytes < length

theorem writeProxyResponse_streamed {w : List Field} {resp : Reply}
    (h : Streamed uni p resp.header resp.body.length) : writeProxyResponse uni p w resp = ⟨resp.status, w, resp.body⟩ := by
  unfold writeProxyResponse
  rcases h with h | h | h | h
  · refine if_pos ?_
    rw [scripts_eq_nil_iff.1 h]
    rfl
  · exact if_pos (by simp [h])
  · exact if_pos (by simp [h])
  · simp only [if_pos h, ite_self]

theorem body_of_compressed {w : List Field} {resp : Reply}
    (h : isCompressed uni resp.header = true) : (writeProxyResponse uni p w resp).body = resp.body := by
  rw [writeProxyResponse_streamed (Or.inr (Or.inr (Or.inl h)))]

/-! The request. -/

def CanonicalKeys (header : Header) : Prop := ∀ e ∈ header, canonicalMIMEHeaderKey e.1 = e.1

theorem mem_setKey {header : Header} {k : Text} {vs : List Text} {e : Text × List Text} (h : e ∈ setKey header k vs) :
    e = (k, vs) ∨ (e ∈ header ∧ e.1 ≠ k) := by
  unfold setKey at h
  split_ifs at h with hk
  · obtain ⟨e', he', rfl⟩ := List.mem_map.1 h
    split_ifs with heq
    · exact Or.inl rfl
    · exact Or.inr ⟨he', heq⟩
  · rcases List.mem_append.1 h with h | h
    · refine Or.inr ⟨h, fun heq => hk ?_⟩
      exact List.any_eq_true.2 ⟨e, h, decide_eq_true heq⟩
    · exact Or.inl (List.mem_singleton.1 h)

theorem mem_setKey_self (header : Header) (k : Text) (vs : List Text) : (k, vs) ∈ setKey header k vs := by
  unfold setKey
  split_ifs with hk
  · obtain ⟨e, he, heq⟩ := List.any_eq_true.1 hk
    exact List.mem_map.2 ⟨e, he, if_pos (of_decide_eq_true heq)⟩
  · exact List.mem_append_right _ (List.mem_singleton.2 rfl)

theorem canonicalKeys_setKey {header : Header} {k : Text} {vs : List Text} (h : CanonicalKeys header)
    (hk : canonicalMIMEHeaderKey k = k) : CanonicalKeys (setKey header k vs) := by
  intro e he
  rcases mem_setKey he with rfl | ⟨he, -⟩
  · exact hk
  · exact h e he

theorem canonicalKeys_ownHeaders (uni : Unicode) (p : Policy) (r : Request) (host : Text) :
    CanonicalKeys (ownHeaders uni p r host) := by
  have hkept : ∀ q, CanonicalKeys (r.header.filter q) := fun q e he => r.canonical e (List.mem_filter.1 he).1
  have hif : ∀ {on : Prop} [Decidable on] {header : Header} {k : Text} {vs : List Text}, CanonicalKeys header →
      canonicalMIMEHeaderKey k = k → CanonicalKeys (if on then setKey header k vs else header) := by
    intro on _ header k vs h hk
    split_ifs
    · exact canonicalKeys_setKey h hk
    · exact h
  exact hif (canonicalKeys_setKey (hif (hif (hkept _) (by decide)) (by decide)) (by decide)) (by decide)

theorem valuesOf_requestHeaders (uni : Unicode) (r : Request) (host : Text) (hrec : p.recordSessions = true) :
    (valuesOf (added (requestHeaders uni p r host)) acceptEncoding) ≠ [] ∧
      ∀ v ∈ valuesOf (added (requestHeaders uni p r host)) acceptEncoding, v = "identity".toList := by
  rw [requestHeaders, if_pos hrec]
  have hcanon := canonicalKeys_ownHeaders uni p r host
  constructor
  · apply List.ne_nil_of_mem (a := "identity".toList)
    refine List.mem_map.2 ⟨(acceptEncoding, "identity".toList), List.mem_filter.2 ⟨?_, by decide⟩, rfl⟩
    refine List.mem_map.2 ⟨(acceptEncoding, "identity".toList), ?_, by decide⟩
    exact List.mem_flatMap.2 ⟨_, mem_setKey_self _ _ _, by simp⟩
  · intro v hv
    obtain ⟨f, hf, rfl⟩ := List.mem_map.1 hv
    obtain ⟨hf, hkey⟩ := List.mem_filter.1 hf
    obtain ⟨g, hg, rfl⟩ := List.mem_map.1 hf
    obtain ⟨e, he, hg⟩ := List.mem_flatMap.1 hg
    obtain ⟨v, hmem, rfl⟩ := List.mem_map.1 hg
    rcases mem_setKey he with rfl | ⟨he, hne⟩
    · exact List.mem_singleton.1 hmem
    · rw [hcanon e he] at hkey
      exact absurd (of_decide_eq_true hkey) hne

theorem offers_identity {values : List Text} (h : ∀ v ∈ values, v = "identity".toList) : offers values = false := by
  have hone : offers ["identity".toList] = false := by decide +kernel
  refine List.any_eq_false.2 fun v hv => ?_
  rw [h v hv]
  exact List.any_eq_false.1 hone _ List.mem_cons_self

/-- An upstream that compresses only on offer does not compress for a recorded site. -/
theorem not_compressed_of_recorded (codec : Codec uni) (origin : Origin uni) (r : Request)
    (host : Text) (hrec : p.recordSessions = true) :
    isCompressed uni (fetch codec origin r (requestHeaders uni p r host)).header = false := by
  obtain ⟨hne, hall⟩ := valuesOf_requestHeaders uni r host hrec
  have hhead : (valuesOf (added (requestHeaders uni p r host)) acceptEncoding).headD [] ≠ [] := by
    rcases hvalues : valuesOf (added (requestHeaders uni p r host)) acceptEncoding with _ | ⟨v, vs⟩
    · exact absurd hvalues hne
    · rw [hvalues] at hall
      rw [List.headD_cons, hall v List.mem_cons_self]
      decide
  have hnamed : ((valuesOf (added (requestHeaders uni p r host)) acceptEncoding).headD [] = [] : Bool) = false :=
    decide_eq_false hhead
  rw [fetch, clientDo, hnamed, Bool.false_and, Bool.false_and, if_neg Bool.false_ne_true]
  by_contra hcomp
  have hoffer := origin.honest _ (Bool.not_eq_false _ ▸ hcomp)
  rw [offers_identity hall] at hoffer
  exact Bool.noConfusion hoffer

/-- The page that the browser shows has every script that the policy asks for exactly if sessions are
recorded, or the upstream does not compress its answer to the browser's own headers, or the page has them
anyway. -/
theorem scripts_shown_iff (uni : Unicode) (codec : Codec uni) (origin : Origin uni) (p : Policy) (r : Request) (host : Text)
    (hhtml : isHTMLContentType uni (fetch codec origin r (requestHeaders uni p r host)).header = true)
    (hsize : (fetch codec origin r (requestHeaders uni p r host)).body.length ≤ maxInjectableBodyBytes) :
    (∀ s ∈ p.scripts, s <:+: shown codec p (fetch codec origin r (requestHeaders uni p r host))) ↔
      p.recordSessions = true ∨ isCompressed uni (fetch codec origin r (ownHeaders uni p r host)).header = false ∨
        ∀ s ∈ p.scripts, s <:+: codec.decode (fetch codec origin r (ownHeaders uni p r host)).header
          (fetch codec origin r (ownHeaders uni p r host)).body := by
  have hplain : isCompressed uni (fetch codec origin r (requestHeaders uni p r host)).header = false →
      ∀ s ∈ p.scripts, s <:+: shown codec p (fetch codec origin r (requestHeaders uni p r host)) := by
    intro h s hs
    rw [shown, codec.decode_plain _ _ h]
    exact scripts_infix_of_plain hhtml h hsize hs
  cases hrec : p.recordSessions with
  | true => exact iff_of_true (hplain (not_compressed_of_recorded codec origin r host hrec)) (Or.inl rfl)
  | false =>
    have hown : requestHeaders uni p r host = ownHeaders uni p r host := by
      rw [requestHeaders, hrec]
      exact if_neg Bool.false_ne_true
    rw [hown] at hplain ⊢
    cases hcomp : isCompressed uni (fetch codec origin r (ownHeaders uni p r host)).header with
    | false => exact iff_of_true (hplain hcomp) (Or.inr (Or.inl rfl))
    | true => simp only [shown, body_of_compressed hcomp, Bool.false_eq_true, reduceCtorEq, false_or]

/-! A page in an upstream that compresses where it may. -/

def emptyPage : Bytes := bytesOf "<html><head></head></html>"

/-- A coding that turns the bytes round. -/
def turning : Codec asciiTables where
  decode header body := if isCompressed asciiTables header then body.reverse else body
  decode_plain _ _ h := by rw [h, if_neg Bool.false_ne_true]

def pageHeader : Header := [("Content-Type".toList, ["text/html".toList])]

def codedHeader : Header := pageHeader ++ [("Content-Encoding".toList, ["br".toList])]

def compressing : Origin asciiTables where
  answer req := if offers (valuesOf req acceptEncoding) then ⟨200, codedHeader, emptyPage.reverse⟩
    else ⟨200, pageHeader, emptyPage⟩
  honest req h := by
    by_contra hoffers
    rw [if_neg hoffers] at h
    exact absurd h (by decide +kernel)

def browserRequest (encoding : String) : Request where
  method := "GET".toList
  header := [("Accept-Encoding".toList, [encoding.toList])]
  cookies := []
  remoteIP := []
  canonical := by
    intro e he
    rw [List.mem_singleton.1 he]
    show canonicalMIMEHeaderKey acceptEncoding = acceptEncoding
    decide

/-- The clipboard is restricted and nothing is recorded. -/
def guarded : Policy := ⟨false, "no_copy".toList, false, false, []⟩

/-- A browser that takes no coding gets the guard. -/
theorem scripts_shown_to_identity :
    clipboardScript guarded.clipboardMode ∈ guarded.scripts ∧
    clipboardScript guarded.clipboardMode <:+: shown turning guarded
      (fetch turning compressing (browserRequest "identity") (requestHeaders asciiTables guarded (browserRequest "identity") [])) := by
  have hmem : clipboardScript guarded.clipboardMode ∈ guarded.scripts := by decide +kernel
  have hshown := (scripts_shown_iff asciiTables turning compressing guarded (browserRequest "identity") [] (by decide +kernel)
    (by decide +kernel)).2 (Or.inr (Or.inl (by decide +kernel)))
  exact ⟨hmem, hshown _ hmem⟩

/-- One that takes `br` gets the page without it. -/
theorem guard_missing_from_compressed_page :
    clipboardScript guarded.clipboardMode ∈ guarded.scripts ∧
    ¬ clipboardScript guarded.clipboardMode <:+: shown turning guarded
      (fetch turning compressing (browserRequest "gzip, br") (requestHeaders asciiTables guarded (browserRequest "gzip, br") [])) := by
  refine ⟨by decide +kernel, fun h => absurd h.length_le (by decide +kernel)⟩

end Captivo.Proxy
