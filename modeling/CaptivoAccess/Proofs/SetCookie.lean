import CaptivoAccess.Spec.ProxyResponse

/-! Which cookies an upstream can make the browser store. Over plain HTTP the filter of
`copyRespHeaders` reads a cookie's name where the browser does; a WebSocket handshake
passes it by. -/

namespace Captivo.Proxy

open Lib.Utf8 Lib.HttpHead

/-! The name of a cookie. -/

theorem isSpace_newlineToSpace (c : Char) : isSpace (newlineToSpace c) = isSpace c := by
  unfold newlineToSpace
  split_ifs with h
  · simp only [Bool.or_eq_true, decide_eq_true_eq] at h
    rcases h with rfl | rfl <;> decide
  · rfl

theorem newlineToSpace_eq_iff {c d : Char} (hd : d ≠ ' ') (hr : d ≠ '\r') (hn : d ≠ '\n') : newlineToSpace c = d ↔ c = d := by
  unfold newlineToSpace
  split_ifs with h
  · simp only [Bool.or_eq_true, decide_eq_true_eq] at h
    constructor
    · exact fun hc => absurd hc.symm hd
    · rintro rfl
      rcases h with h | h <;> contradiction
  · rfl

theorem eq_of_map_newlineToSpace {s n : Text} (h : s.map newlineToSpace = n) (hn : ' ' ∉ n) : s = n := by
  induction s generalizing n with
  | nil => simpa using h
  | cons c s ih =>
    rcases n with _ | ⟨d, n⟩
    · simp at h
    · simp only [List.map_cons, List.cons.injEq, List.mem_cons, not_or] at h hn
      have hc : c = d := by
        have hc := h.1
        unfold newlineToSpace at hc
        split_ifs at hc
        · exact absurd hc hn.1
        · exact hc
      rw [hc, ih h.2 hn.2]

theorem isSpace_of_isASCIISpace {c : Char} (h : isASCIISpace c = true) : isSpace c = true := by
  simp only [isASCIISpace, Bool.or_eq_true, decide_eq_true_eq] at h
  rcases h with ((rfl | rfl) | rfl) | rfl <;> decide

theorem isASCIISpace_of_isWsp {c : Char} (h : isWsp c = true) : isASCIISpace c = true := by
  simp only [isWsp, Bool.or_eq_true, decide_eq_true_eq] at h
  rcases h with rfl | rfl <;> decide

/-- The name that a browser reads off the line is the one that the filter looked at. -/
theorem setCookieName_eq {v : Text} {c : Cookie} (h : cookieOf (trim isASCIISpace (v.map newlineToSpace)) = some c)
    (hne : c.name ≠ []) (hblank : ' ' ∉ c.name) (htrim : trimSpace c.name = c.name) : setCookieName v = c.name := by
  obtain ⟨a, b, hv, ha, -⟩ := exists_eq_append_trim isASCIISpace (v.map newlineToSpace)
  obtain ⟨hmem, hname⟩ := name_of_cookieOf h hne
  have heq : ∀ x ∈ a, decide (x ≠ '=') = true := by
    intro x hx
    simp only [decide_eq_true_eq]
    rintro rfl
    exact absurd (ha _ hx) (by decide)
  -- the text before the sign, in the line and in what the upstream sent
  have hline : (v.map newlineToSpace).takeWhile (· ≠ '=') =
      a ++ (trim isASCIISpace (v.map newlineToSpace)).takeWhile (· ≠ '=') := by
    conv_lhs => rw [hv]
    rw [List.append_assoc, List.takeWhile_append_of_pos heq, takeWhile_append_of_mem hmem]
  have hsent : (v.map newlineToSpace).takeWhile (· ≠ '=') = (v.takeWhile (· ≠ '=')).map newlineToSpace := by
    rw [List.takeWhile_map]
    congr 2
    funext x
    simp only [Function.comp_apply, ne_eq, newlineToSpace_eq_iff (d := '=') (by decide) (by decide) (by decide)]
  apply eq_of_map_newlineToSpace _ hblank
  calc (setCookieName v).map newlineToSpace
      = trimSpace ((v.takeWhile (· ≠ '=')).map newlineToSpace) := (trim_map isSpace_newlineToSpace).symm
    _ = trimSpace (a ++ (trim isASCIISpace (v.map newlineToSpace)).takeWhile (· ≠ '=') ++ []) := by
        rw [← hsent, hline, List.append_nil]
    _ = trimSpace ((trim isASCIISpace (v.map newlineToSpace)).takeWhile (· ≠ '=')) :=
        trim_append (fun x hx => isSpace_of_isASCIISpace (ha x hx)) (by simp)
    _ = trimSpace c.name := by
        rw [hname]
        exact (trim_trim fun x hx => isSpace_of_isASCIISpace (isASCIISpace_of_isWsp hx)).symm
    _ = c.name := htrim

/-! Plain HTTP. -/

theorem map_toLower_canonicalFrom (upper : Bool) (k : Text) : (canonicalFrom upper k).map Char.toLower = k.map Char.toLower := by
  induction k generalizing upper with
  | nil => rfl
  | cons c k ih =>
    simp only [canonicalFrom, List.map_cons, ih, List.cons.injEq, and_true]
    cases upper
    · exact toLower_toLower c
    · exact toLower_toUpper c

theorem isSetCookie_canonical {k : Text} (h : isSetCookie (canonicalMIMEHeaderKey k) = true) : isSetCookie k = true := by
  unfold canonicalMIMEHeaderKey at h
  split_ifs at h
  · simpa only [isSetCookie, map_toLower_canonicalFrom] using h
  · exact h

theorem equalFold_of_isSetCookie (uni : Unicode) {k : Text} (h : isSetCookie k = true) :
    uni.equalFold k "Set-Cookie".toList = true := by
  simp only [isSetCookie, decide_eq_true_eq] at h
  have hfold : ∀ s : Text, (∀ c ∈ s, c.toNat < 0x80) → s.map uni.fold = s.map Char.toLower :=
    fun s hs => List.map_congr_left fun c hc => uni.fold_ascii c (hs c hc)
  have hk : ∀ c ∈ k, c.toNat < 0x80 := by
    intro c hc
    have hlower : ∀ d ∈ "set-cookie".toList, d.toNat < 0x80 := List.forall_iff_forall_mem.1 (by decide)
    exact lt_of_toLower_lt (hlower _ (h ▸ List.mem_map_of_mem hc))
  simp only [Unicode.equalFold, decide_eq_true_eq]
  rw [hfold k hk, hfold _ (List.forall_iff_forall_mem.1 (by decide)), h]
  decide

theorem toLower_reserved (uni : Unicode) {n : Text} (h : n ∈ reservedAuthCookies) : uni.toLower n = n := by
  have hn : ∀ n ∈ reservedAuthCookies, n.Forall fun c => c.toNat < 0x80 ∧ c.toLower = c := by decide
  have hascii : ∀ c ∈ n, c.toNat < 0x80 ∧ c.toLower = c := List.forall_iff_forall_mem.1 (hn n h)
  conv_rhs => rw [← List.map_id n]
  refine List.map_congr_left fun c hc => ?_
  rw [uni.lower_ascii c (hascii c hc).1, (hascii c hc).2, id]

theorem filtered_of_mem_copyRespHeaders {uni : Unicode} {src : Header} {f : Field} (hf : f ∈ copyRespHeaders uni src)
    (hname : isSetCookie f.1 = true) : uni.toLower (setCookieName f.2) ∉ reservedAuthCookies := by
  obtain ⟨e, -, hf⟩ := List.mem_flatMap.1 hf
  split_ifs at hf with hhop hfold
  · simp at hf
  · obtain ⟨v, hv, rfl⟩ := List.mem_map.1 hf
    exact of_decide_eq_true (List.mem_filter.1 hv).2
  · obtain ⟨v, -, rfl⟩ := List.mem_map.1 hf
    exact absurd (equalFold_of_isSetCookie uni (isSetCookie_canonical hname)) hfold

theorem mem_fields_writeProxyResponse {uni : Unicode} {p : Policy} {w : List Field} {resp : Reply} {f : Field}
    (hf : f ∈ (writeProxyResponse uni p w resp).fields) : f ∈ w ∨ f.1 = "Content-Length".toList := by
  simp only [writeProxyResponse] at hf
  split_ifs at hf
  all_goals first
    | exact Or.inl hf
    | rcases List.mem_append.1 hf with hf | hf
      · simp only [del, List.mem_filter] at hf
        exact Or.inl hf.1.1.1
      · rw [List.mem_singleton.1 hf]
        exact Or.inr rfl

theorem clean_of_mem_writeSubset {fs : List Field} {f : Field} (hf : f ∈ writeSubset fs) : Clean f := by
  obtain ⟨g, hg, rfl⟩ := List.mem_map.1 hf
  simp only [List.mem_filter, Bool.and_eq_true, List.all_eq_true] at hg
  have htoken : ∀ c, isTokenChar c = false → c ∉ g.1 := by
    intro c hc hmem
    rw [hg.2.2 c hmem] at hc
    exact Bool.noConfusion hc
  refine ⟨htoken _ (by decide), htoken _ (by decide), fun hmem => ?_⟩
  obtain ⟨c, -, hc⟩ := List.mem_map.1 (mem_of_mem_trim hmem)
  unfold newlineToSpace at hc
  split_ifs at hc with hline
  · exact absurd hc (by decide)
  · simp [hc] at hline

theorem newline_ne_digit (n : ℕ) : '\n' ≠ digit n := by
  have hdigit : ∀ k < 10, '\n' ≠ Char.ofNat (48 + k) := by decide
  exact hdigit (n % 10) (Nat.mod_lt n (by decide))

theorem newline_not_mem_statusLine (status : ℕ) : '\n' ∉ statusLine status := by
  intro h
  rcases List.mem_append.1 h with h | h
  · exact absurd h (by decide)
  · simp only [List.mem_cons, List.not_mem_nil, or_false] at h
    rcases h with h | h | h
    all_goals exact newline_ne_digit _ h

theorem mem_cookies_writeHead {status : Text} {fs : List Field} (hstatus : '\n' ∉ status) (hfs : ∀ f ∈ fs, Clean f)
    {c : Cookie} : c ∈ cookies (writeHead status fs) ↔
      ∃ f ∈ fs, isSetCookie f.1 = true ∧ cookieOf (trim isWsp f.2) = some c := by
  rw [cookies, readHead_writeHead hstatus hfs]
  simp only [List.mem_filterMap, List.mem_filter, List.mem_map]
  constructor
  · rintro ⟨_, ⟨⟨f, hf, rfl⟩, hname⟩, hc⟩
    exact ⟨f, hf, hname, hc⟩
  · rintro ⟨f, hf, hname, hc⟩
    exact ⟨_, ⟨⟨f, hf, rfl⟩, hname⟩, hc⟩

theorem plain_sets_no_reserved (uni : Unicode) (p : Policy) (resp : Option Reply) {c : Cookie}
    (hc : c ∈ cookies (serveHTTP uni p resp)) : c.name ∉ reservedAuthCookies := by
  cases resp with
  | none =>
    have hown : ∀ f ∈ [contentType "text/html; charset=utf-8"], Clean f ∧ isSetCookie f.1 = false := by
      simp only [Clean]
      decide
    obtain ⟨f, hf, hname, -⟩ := (mem_cookies_writeHead (newline_not_mem_statusLine 502) fun f hf => (hown f hf).1).1 hc
    rw [(hown f hf).2] at hname
    exact Bool.noConfusion hname
  | some resp =>
    simp only [serveHTTP] at hc
    split_ifs at hc
    · simp [cookies, readHead] at hc
    · obtain ⟨f, hf, hname, hcookie⟩ :=
        (mem_cookies_writeHead (newline_not_mem_statusLine _) fun f hf => clean_of_mem_writeSubset hf).1 hc
      obtain ⟨g, hg, rfl⟩ := List.mem_map.1 hf
      rcases mem_fields_writeProxyResponse (List.mem_filter.1 hg).1 with hg | hg
      · -- a field of the upstream's
        intro hreserved
        have hplain : ∀ n ∈ reservedAuthCookies, n ≠ [] ∧ ' ' ∉ n ∧ trimSpace n = n := by decide
        obtain ⟨hne, hblank, htrim⟩ := hplain _ hreserved
        rw [trim_of_trim fun x => isASCIISpace_of_isWsp] at hcookie
        have hfiltered := filtered_of_mem_copyRespHeaders hg hname
        rw [setCookieName_eq hcookie hne hblank htrim, toLower_reserved uni hreserved] at hfiltered
        exact hfiltered hreserved
      · simp only [hg] at hname
        exact absurd hname (by decide)

example : cookies (reaching asciiTables (.http ⟨false, [], false, false, []⟩
    (some ⟨200, [("Set-Cookie".toList, ["CA_Session=x; Domain=access.local".toList, "lang=en".toList])], []⟩))) =
      [⟨"lang".toList, "en".toList, []⟩] := by
  decide +kernel

/-! WebSockets. -/

theorem mem_fields_addValue {header : Header} {k v : Text} {f : Field} (hf : f ∈ fields (addValue header k v)) :
    f ∈ fields header ∨ f = (k, v) := by
  unfold addValue at hf
  split_ifs at hf with hk
  · obtain ⟨e, he, hf⟩ := List.mem_flatMap.1 hf
    obtain ⟨e', he', rfl⟩ := List.mem_map.1 he
    split_ifs at hf with heq
    · obtain ⟨x, hx, rfl⟩ := List.mem_map.1 hf
      rcases List.mem_append.1 hx with hx | hx
      · exact Or.inl (List.mem_flatMap.2 ⟨e', he', List.mem_map_of_mem hx⟩)
      · rw [List.mem_singleton.1 hx, heq]
        exact Or.inr rfl
    · exact Or.inl (List.mem_flatMap.2 ⟨e', he', hf⟩)
  · rw [fields, List.flatMap_append] at hf
    rcases List.mem_append.1 hf with hf | hf
    · exact Or.inl hf
    · exact Or.inr (by simpa using hf)

/-- A field as the handshake gives it: on one line, and its value without blanks around it. -/
def Trimmed (f : Field) : Prop := Clean f ∧ trim isWsp f.2 = f.2

theorem isSpace_of_isWsp {c : Char} (h : isWsp c = true) : isSpace c = true :=
  isSpace_of_isASCIISpace (isASCIISpace_of_isWsp h)

theorem trimmed_addLine {header : Header} {line : Bytes} (hline : 10 ∉ line) (hheader : ∀ f ∈ fields header, Trimmed f) :
    ∀ f ∈ fields (addLine header line), Trimmed f := by
  intro f hf
  unfold addLine at hf
  split_ifs at hf
  · rcases mem_fields_addValue hf with hf | rfl
    · exact hheader f hf
    · -- a character of the name or the value is a byte of the line
      refine ⟨⟨fun h => ?_, fun h => ?_, fun h => ?_⟩, trim_of_trim fun _ => isSpace_of_isWsp⟩
      · have hmem := List.mem_takeWhile_imp (mem_of_mem_text (mem_of_mem_trim h) (by decide) (by decide))
        exact absurd hmem (by decide)
      · exact hline (List.takeWhile_subset _ (mem_of_mem_text (mem_of_mem_trim h) (by decide) (by decide)))
      · exact hline (List.dropWhile_subset _ (List.drop_subset _ _
          (mem_of_mem_text (mem_of_mem_trim h) (by decide) (by decide))))
  · exact hheader f hf

theorem newline_not_mem_trimEnd {l : Bytes} (h : 10 ∉ l) : 10 ∉ trimEnd (l ++ [10]) := by
  rw [trimEnd, List.rdropWhile_concat, if_pos (by decide)]
  exact fun hmem => h ((List.rdropWhile_prefix _ l).subset hmem)

theorem mem_readLines {acc bs line : Bytes} (hacc : 10 ∉ acc) (h : line ∈ readLines acc bs) :
    ∃ l, line = l ++ [10] ∧ 10 ∉ l := by
  induction bs generalizing acc with
  | nil => simp [readLines] at h
  | cons b bs ih =>
    simp only [readLines] at h
    split_ifs at h with hb
    · rcases List.mem_cons.1 h with rfl | h
      · exact ⟨acc, by rw [hb], hacc⟩
      · exact ih (by simp) h
    · exact ih (by simp [hacc, Ne.symm hb]) h

theorem trimmed_readHeader {headerBytes : ℕ} {header header' : Header} {lines : List Bytes}
    (hlines : ∀ line ∈ lines, ∃ l, line = l ++ [10] ∧ 10 ∉ l) (hheader : ∀ f ∈ fields header, Trimmed f)
    (h : readHeader headerBytes header lines = .ok header') : ∀ f ∈ fields header', Trimmed f := by
  induction lines generalizing headerBytes header with
  | nil => simp [readHeader] at h
  | cons line lines ih =>
    simp only [readHeader] at h
    split_ifs at h with hlarge hend
    · obtain rfl := Except.ok.inj h
      exact hheader
    · obtain ⟨l, rfl, hl⟩ := hlines line List.mem_cons_self
      exact ih (fun x hx => hlines x (List.mem_cons_of_mem _ hx))
        (trimmed_addLine (newline_not_mem_trimEnd hl) hheader) h

theorem trimmed_handleWS (stream : Bytes) : ∀ f ∈ fields (handleWS stream).header, Trimmed f := by
  unfold handleWS
  have hlines : ∀ line ∈ readLines [] stream, ∃ l, line = l ++ [10] ∧ 10 ∉ l :=
    fun line => mem_readLines List.not_mem_nil
  cases hread : readLines [] stream with
  | nil => simp [fields]
  | cons line lines =>
    rw [hread] at hlines
    simp only
    cases hheader : readHeader 0 [] lines with
    | error msg => simp [fields]
    | ok header =>
      exact trimmed_readHeader (fun l hl => hlines l (List.mem_cons_of_mem _ hl)) (by simp [fields]) hheader

theorem mem_cookies_serveWebSocket {wresp : WsDialResponse} (h : ∀ f ∈ fields wresp.header, Trimmed f) {c : Cookie} :
    c ∈ cookies (serveWebSocket wresp) ↔ wresp.error = [] ∧ wresp.status = 101 ∧
      ∃ f ∈ fields wresp.header, isSetCookie f.1 = true ∧ cookieOf f.2 = some c := by
  unfold serveWebSocket
  split_ifs with hfail
  · have hown : ∀ f ∈ [contentType "text/plain; charset=utf-8", ("X-Content-Type-Options".toList, "nosniff".toList)],
        Clean f ∧ isSetCookie f.1 = false := by
      simp only [Clean]
      decide
    rw [mem_cookies_writeHead (newline_not_mem_statusLine 502) fun f hf => (hown f hf).1]
    constructor
    · rintro ⟨f, hf, hname, -⟩
      rw [(hown f hf).2] at hname
      exact Bool.noConfusion hname
    · rintro ⟨herror, hstatus, -⟩
      simp [herror, hstatus] at hfail
  · simp only [Bool.or_eq_true, decide_eq_true_eq, not_or, not_not] at hfail
    rw [mem_cookies_writeHead (by decide) fun f hf => (h f hf).1]
    constructor
    · rintro ⟨f, hf, hname, hc⟩
      rw [(h f hf).2] at hc
      exact ⟨hfail.1, hfail.2, f, hf, hname, hc⟩
    · rintro ⟨-, -, f, hf, hname, hc⟩
      rw [← (h f hf).2] at hc
      exact ⟨f, hf, hname, hc⟩

/-- The upstream's own handshake, if it is accepted, asks for no reserved cookie that the browser would take.
Plain responses may ask for any. -/
def AsksForNone (takes : Cookie → Bool) : Upstream → Prop
  | .http _ _ => True
  | .websocket stream => (handleWS stream).error = [] → (handleWS stream).status = 101 →
      ∀ f ∈ fields (handleWS stream).header, isSetCookie f.1 = true → ∀ c, cookieOf f.2 = some c → takes c = true →
        c.name ∉ reservedAuthCookies

/-- Whatever else the browser looks at before it stores a cookie (`takes`), it stores no reserved one
exactly if the response is a plain one, or the upstream's handshake did not ask for it. -/
theorem stores_no_reserved_iff (uni : Unicode) (takes : Cookie → Bool) (u : Upstream) :
    (∀ c ∈ cookies (reaching uni u), takes c = true → c.name ∉ reservedAuthCookies) ↔ AsksForNone takes u := by
  cases u with
  | http p resp => exact iff_of_true (fun c hc _ => plain_sets_no_reserved uni p resp hc) trivial
  | websocket stream =>
    have hcookies := fun c => mem_cookies_serveWebSocket (trimmed_handleWS stream) (c := c)
    constructor
    · intro h herror hstatus f hf hname c hc
      exact h c ((hcookies c).2 ⟨herror, hstatus, f, hf, hname, hc⟩)
    · intro h c hc
      obtain ⟨herror, hstatus, f, hf, hname, hcookie⟩ := (hcookies c).1 hc
      exact h herror hstatus f hf hname c hcookie

/-- An upstream that accepts the upgrade and sets a cookie for the domain that the session cookie is shared on. -/
def fixating : Bytes :=
  ascii "HTTP/1.1 101 Switching Protocols\r\nUpgrade: websocket\r\nSet-Cookie: ca_session=x; Domain=access.local\r\n\r\n"

theorem websocket_sets_session :
    ⟨"ca_session".toList, "x".toList, "; Domain=access.local".toList⟩ ∈ cookies (reaching asciiTables (.websocket fixating)) := by
  decide +kernel

end Captivo.Proxy
