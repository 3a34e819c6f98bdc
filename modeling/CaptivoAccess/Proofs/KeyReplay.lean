import CaptivoAccess.Lib.Separated
import CaptivoAccess.Proofs.KeyMask
import CaptivoAccess.Proofs.PageScripts
import CaptivoAccess.Sanity.Replay
import CaptivoAccess.Spec.KeyWriter

/-! Keystrokes from the observer to the console and back: Go writes a batch of events as
JSON, JavaScript reads it line by line. What the observer hands out is printable ASCII, or
the mask, and its times are small enough for a double. -/

namespace Captivo.Keys

open Lib.Utf8 Lib.JsonText Lib.JsonRead Lib.Run Captivo.Guac Captivo.Video Captivo.Capture

/-! Strings. -/

theorem hexValue_hexDigit : ∀ n < 16, hexValue (Proxy.hexDigit n) = some n := by decide

theorem hexUnit_hexDigit {n : ℕ} (h : n < 0x80) :
    hexUnit '0' '0' (Proxy.hexDigit (n / 16)) (Proxy.hexDigit (n % 16)) = some (UInt16.ofNat n) := by
  rw [hexUnit, hexValue_hexDigit (n / 16) (by omega), hexValue_hexDigit (n % 16) (by omega)]
  show some (UInt16.ofNat (((0 * 16 + 0) * 16 + n / 16) * 16 + n % 16)) = _
  rw [show ((0 * 16 + 0) * 16 + n / 16) * 16 + n % 16 = n by omega]

theorem utf16_of_lt {c : Char} {n : ℕ} (h : c.toNat = n) (hn : n < 0x10000) : utf16 c = [UInt16.ofNat n] := by
  rw [utf16, h, if_pos hn]

theorem readString_ite {on : Prop} [Decidable on] {a b r : List Char} {x : Option (Units × List Char)}
    (ha : on → readString (a ++ r) = x) (hb : ¬ on → readString (b ++ r) = x) : readString ((if on then a else b) ++ r) = x := by
  split_ifs with h
  · exact ha h
  · exact hb h

theorem readString_jsonRune (c : Char) {r rest : List Char} {u : Units} (h : readString r = some (u, rest)) :
    readString (Proxy.jsonRune c ++ r) = some (utf16 c ++ u, rest) := by
  unfold Proxy.jsonRune
  refine readString_ite (fun hquote => ?_) fun hquote => readString_ite (fun hslash => ?_) fun hslash =>
    readString_ite (fun hn => ?_) fun _ => readString_ite (fun hr => ?_) fun _ => readString_ite (fun ht => ?_) fun _ =>
    readString_ite (fun hb => ?_) fun _ => readString_ite (fun hf => ?_) fun _ => readString_ite (fun hhex => ?_) fun hhex =>
    readString_ite (fun h2028 => ?_) fun _ => readString_ite (fun h2029 => ?_) fun _ => ?_
  · subst hquote
    exact readString_escaped h rfl
  · subst hslash
    exact readString_escaped h rfl
  · subst hn
    exact readString_escaped h rfl
  · subst hr
    exact readString_escaped h rfl
  · subst ht
    exact readString_escaped h rfl
  · rw [utf16_of_lt hb (by decide)]
    exact readString_escaped h rfl
  · rw [utf16_of_lt hf (by decide)]
    exact readString_escaped h rfl
  · have hlt := Proxy.lt_of_hexEscaped hhex
    rw [utf16_of_lt rfl (hlt.trans (by decide))]
    exact readString_hex h (hexUnit_hexDigit hlt)
  · rw [utf16_of_lt h2028 (by decide)]
    exact readString_hex h rfl
  · rw [utf16_of_lt h2029 (by decide)]
    exact readString_hex h rfl
  · have hprintable : 0x20 ≤ c.toNat := by
      by_contra hlt
      exact hhex (by simp [Nat.not_le.1 hlt])
    exact readString_plain h hquote hslash hprintable

/-- A string between its quotes. -/
def quotedText (s : List Char) : List Char := '\x22' :: (s.flatMap Proxy.jsonRune ++ ['\x22'])

theorem readString_text (s r : List Char) : readString (s.flatMap Proxy.jsonRune ++ '\x22' :: r) = some (s.flatMap utf16, r) := by
  induction s with
  | nil => rfl
  | cons c s ih =>
    rw [List.flatMap_cons, List.flatMap_cons, List.append_assoc]
    exact readString_jsonRune c ih

/-! Numbers. -/

def digitChars (m : ℕ) : List Char := if m = 0 then ['0'] else (Nat.digits 10 m).reverse.map fun d => Char.ofNat (48 + d)

def intText (n : ℤ) : List Char := (if decide (n < 0) then ['-'] else []) ++ digitChars n.natAbs

theorem isDigit_ofNat : ∀ d < 10, (Char.ofNat (48 + d)).isDigit = true ∧ (d ≠ 0 → Char.ofNat (48 + d) ≠ '0') ∧
    encodeText [Char.ofNat (48 + d)] = [UInt8.ofNat (48 + d)] ∧
    UInt16.ofNat (Char.ofNat (48 + d)).toNat = (UInt8.ofNat (48 + d)).toUInt16 ∧
    isNumUnit (UInt8.ofNat (48 + d)).toUInt16 = true := by
  decide

theorem wholeDigits_digitChars (m : ℕ) : WholeDigits (digitChars m) := by
  rw [digitChars]
  split_ifs with hm
  · exact Or.inl rfl
  · refine Or.inr ?_
    have hne : (Nat.digits 10 m).reverse ≠ [] := by simpa [Nat.digits_eq_nil_iff_eq_zero] using hm
    have hlt : ∀ d ∈ (Nat.digits 10 m).reverse, d < 10 := fun d hd => Nat.digits_lt_base (by norm_num) (List.mem_reverse.1 hd)
    have hlead : (Nat.digits 10 m).reverse.head hne ≠ 0 := by
      rw [List.head_reverse]
      exact Nat.getLast_digit_ne_zero 10 hm
    obtain ⟨d, ds, hds⟩ := List.exists_cons_of_ne_nil hne
    simp only [hds] at hlt hlead ⊢
    refine ⟨_, _, List.map_cons, (isDigit_ofNat d (hlt d List.mem_cons_self)).2.1 hlead, ?_⟩
    intro x hx
    obtain ⟨e, he, rfl⟩ := List.mem_map.1 (List.map_cons ▸ hx : x ∈ (d :: ds).map fun d => Char.ofNat (48 + d))
    exact (isDigit_ofNat e (hlt e he)).1

theorem encodeText_intText (n : ℤ) : encodeText (intText n) = decimal n := by
  have hdigits : ∀ ds : List ℕ, (∀ d ∈ ds, d < 10) →
      encodeText (ds.map fun d => Char.ofNat (48 + d)) = ds.map fun d => UInt8.ofNat (48 + d) := by
    intro ds hds
    induction ds with
    | nil => rfl
    | cons d ds ih =>
      have hd := (isDigit_ofNat d (hds d List.mem_cons_self)).2.2.1
      rw [List.map_cons, List.map_cons, ← List.singleton_append, encodeText_append, hd,
        ih fun e he => hds e (List.mem_cons_of_mem d he)]
      rfl
  rw [intText, decimal, encodeText_append]
  refine congrArg₂ (· ++ ·) ?_ ?_
  · by_cases hn : n < 0
    · simp [hn]
      rfl
    · simp [hn]
  · rw [digitChars]
    by_cases hn : n = 0
    · rw [if_pos (Int.natAbs_eq_zero.2 hn), if_pos hn]
      rfl
    · rw [if_neg (Int.natAbs_ne_zero.2 hn), if_neg hn]
      exact hdigits _ fun d hd => Nat.digits_lt_base (by norm_num) (List.mem_reverse.1 hd)

theorem units_intText (n : ℤ) : (intText n).map (fun c => UInt16.ofNat c.toNat) = (decimal n).map (·.toUInt16) := by
  rw [intText, decimal, List.map_append, List.map_append]
  refine congrArg₂ (· ++ ·) ?_ ?_
  · by_cases hn : n < 0
    · simp [hn]
    · simp [hn]
  · rw [digitChars]
    by_cases hn : n = 0
    · rw [if_pos (Int.natAbs_eq_zero.2 hn), if_pos hn]
      rfl
    · rw [if_neg (Int.natAbs_ne_zero.2 hn), if_neg hn, List.map_map, List.map_map]
      refine List.map_congr_left fun d hd => ?_
      exact (isDigit_ofNat d (Nat.digits_lt_base (by norm_num) (List.mem_reverse.1 hd))).2.2.2.1

theorem isNumUnit_intText {n : ℤ} {c : UInt16} (h : c ∈ (intText n).map fun c => UInt16.ofNat c.toNat) : isNumUnit c = true := by
  obtain ⟨x, hx, rfl⟩ := List.mem_map.1 h
  rcases List.mem_append.1 hx with hx | hx
  · split_ifs at hx
    · obtain rfl := List.mem_singleton.1 hx
      rfl
    · cases hx
  · rw [digitChars] at hx
    split_ifs at hx
    · obtain rfl := List.mem_singleton.1 hx
      rfl
    · obtain ⟨d, hd, rfl⟩ := List.mem_map.1 hx
      have hdigit := (isDigit_ofNat d (Nat.digits_lt_base (by norm_num) (List.mem_reverse.1 hd))).2.2.2
      rw [hdigit.1]
      exact hdigit.2

/-- The number as it is read. -/
def number (n : ℤ) : NumText where
  text := (intText n).map fun c => UInt16.ofNat c.toNat
  nonempty := by
    intro h
    have hdigits : digitChars n.natAbs = [] := (List.append_eq_nil_iff.1 (List.map_eq_nil_iff.1 h)).2
    rcases wholeDigits_digitChars n.natAbs with he | ⟨c, cs, he, -⟩
    · simp [he] at hdigits
    · simp [he] at hdigits
  units _ h := isNumUnit_intText h

theorem readAtom_intText (n : ℤ) (r : List Char) : readAtom (intText n ++ ',' :: r) = some (.num (number n), ',' :: r) := by
  refine readAtom_int (wholeDigits_digitChars n.natAbs) rfl (decide (n < 0)) ?_
  exact dif_pos ⟨(number n).nonempty, (number n).units⟩

/-! Events. -/

def memberText (name : String) (value : List Char) : List Char := quotedText name.toList ++ ':' :: value

/-- What Go writes for an event. -/
def eventText (e : KeyEvent) : List Char :=
  '\x7b' :: (memberText "atMs" (intText e.atMs) ++ ',' :: (memberText "kind" (quotedText (text e.kind)) ++ ',' ::
    (memberText "text" (quotedText (text e.text)) ++ ',' ::
      (memberText "masked" (if e.masked then "true".toList else "false".toList) ++ ['\x7d']))))

theorem encodeText_quotedText (s : List Char) : encodeText (quotedText s) = Proxy.quoted s := rfl

variable (e : KeyEvent)

theorem marshalEvent_eq : marshalEvent e = encodeText (eventText e) := by
  have hflag : encodeText (if e.masked then "true".toList else "false".toList) = ascii (if e.masked then "true" else "false") := by
    split_ifs
    · rfl
    · rfl
  simp only [eventText, memberText, encodeText_cons, encodeText_append, encodeText_intText, encodeText_quotedText, hflag,
    marshalEvent, marshalString, List.append_assoc]
  rfl

/-- What JavaScript reads it as. -/
def eventFields (e : KeyEvent) : List (Units × Json) :=
  [(units "atMs", .num (number e.atMs)), (units "kind", .str ((text e.kind).flatMap utf16)),
    (units "text", .str ((text e.text).flatMap utf16)), (units "masked", .bool e.masked)]

section Members

variable {name : String} (hname : name.toList.flatMap utf16 = units name) {value u r : List Char} {x : Json}
include hname

theorem readString_memberText (value : List Char) :
    ∃ k, memberText name value = '\x22' :: k ∧ readString k = some (units name, ':' :: value) := by
  refine ⟨name.toList.flatMap Proxy.jsonRune ++ '\x22' :: ':' :: value, ?_, hname ▸ readString_text _ _⟩
  rw [memberText, quotedText]
  simp

theorem derives_member {fs : List (Units × Json)} (hx : Derives (value ++ ',' :: u) (.value x) (',' :: u))
    (hfs : Derives u (.members fs) r) : Derives (memberText name value ++ ',' :: u) (.members ((units name, x) :: fs)) r := by
  have happend : memberText name value ++ ',' :: u = memberText name (value ++ ',' :: u) := by simp [memberText]
  obtain ⟨k, hk, hread⟩ := readString_memberText hname (value ++ ',' :: u)
  rw [happend, hk]
  exact .member (skipWs_cons rfl k) hread rfl hx rfl hfs

theorem derives_lastMember (hx : Derives (value ++ '\x7d' :: r) (.value x) ('\x7d' :: r)) :
    Derives (memberText name value ++ '\x7d' :: r) (.members [(units name, x)]) r := by
  have happend : memberText name value ++ '\x7d' :: r = memberText name (value ++ '\x7d' :: r) := by simp [memberText]
  obtain ⟨k, hk, hread⟩ := readString_memberText hname (value ++ '\x7d' :: r)
  rw [happend, hk]
  exact .lastMember (skipWs_cons rfl k) hread rfl hx rfl

end Members

theorem derives_quotedText (s r : List Char) : Derives (quotedText s ++ r) (.value (.str (s.flatMap utf16))) r := by
  refine .token ?_
  rw [quotedText, List.cons_append, List.append_assoc, List.singleton_append, readAtom, readString_text]
  rfl

theorem derives_eventText (r : List Char) : Derives (eventText e ++ r) (.value (.obj (eventFields e))) r := by
  have hflag : ∀ u, Derives ((if e.masked then "true".toList else "false".toList) ++ '\x7d' :: u) (.value (.bool e.masked)) ('\x7d' :: u) := by
    intro u
    cases e.masked with
    | true => exact .token rfl
    | false => exact .token rfl
  have hmembers : Derives (memberText "atMs" (intText e.atMs) ++ ',' :: (memberText "kind" (quotedText (text e.kind)) ++ ',' ::
      (memberText "text" (quotedText (text e.text)) ++ ',' ::
        (memberText "masked" (if e.masked then "true".toList else "false".toList) ++ '\x7d' :: r)))) (.members (eventFields e)) r :=
    derives_member rfl (.token (readAtom_intText _ _)) (derives_member rfl (derives_quotedText _ _)
      (derives_member rfl (derives_quotedText _ _) (derives_lastMember rfl (hflag r))))
  rw [eventText, List.cons_append]
  refine .object (skipWs_cons rfl _) ?_
  simpa only [List.append_assoc, List.cons_append, List.nil_append] using hmembers

/-! Batches. -/

/-- What Go writes for a batch. -/
def batchText (events : List KeyEvent) : List Char := '[' :: ([','].intercalate (events.map eventText) ++ [']'])

theorem encodeText_intercalate (ts : List (List Char)) : encodeText ([','].intercalate ts) = [44].intercalate (ts.map encodeText) := by
  induction ts with
  | nil => rfl
  | cons t ts ih =>
    by_cases hts : ts = []
    · subst hts
      simp
    · rw [List.map_cons, List.intercalate_cons_of_ne_nil hts, List.intercalate_cons_of_ne_nil (by simpa using hts), encodeText_append,
        encodeText_append, ih]
      rfl

theorem marshalEvents_eq (events : List KeyEvent) : marshalEvents events = encodeText (batchText events) := by
  have hmap : events.map marshalEvent = (events.map eventText).map encodeText := by
    rw [List.map_map]
    exact List.map_congr_left fun e _ => marshalEvent_eq e
  rw [marshalEvents, hmap, ← encodeText_intercalate, batchText, encodeText_cons, encodeText_append]
  rfl

variable {events : List KeyEvent}

theorem derives_events (h : events ≠ []) (r : List Char) :
    Derives ([','].intercalate (events.map eventText) ++ ']' :: r) (.elements (events.map fun e => .obj (eventFields e))) r := by
  induction events with
  | nil => exact absurd rfl h
  | cons e events ih =>
    by_cases hrest : events = []
    · subst hrest
      simpa using Derives.lastElement (derives_eventText e (']' :: r)) (skipWs_cons rfl r)
    · have hne : events.map eventText ≠ [] := by simpa using hrest
      rw [List.map_cons, List.intercalate_cons_of_ne_nil hne, List.append_assoc, List.append_assoc]
      exact .element (derives_eventText e _) (skipWs_cons rfl _) (ih hrest)

theorem isText_batchText (h : events ≠ []) :
    IsText (batchText events) (.arr (events.map fun e => .obj (eventFields e))) :=
  ⟨[], .array (skipWs_cons rfl _) (derives_events h []), rfl⟩

/-! No line feed. -/

theorem newline_not_mem_quotedText (s : List Char) : '\n' ∉ quotedText s := by
  intro h
  rcases List.mem_cons.1 h with h | h
  · cases h
  · rcases List.mem_append.1 h with h | h
    · obtain ⟨c, -, hc⟩ := List.mem_flatMap.1 h
      exact Proxy.not_mem_jsonRune_of_escaped (by decide) (by decide) c hc
    · exact absurd h (by decide)

theorem newline_not_mem_eventText : '\n' ∉ eventText e := by
  have hint : '\n' ∉ intText e.atMs := fun h => absurd (isNumUnit_intText (List.mem_map_of_mem h)) (by decide)
  have hflag : '\n' ∉ (if e.masked then "true".toList else "false".toList) := by
    split_ifs
    · decide
    · decide
  simp only [eventText, memberText, List.mem_cons, List.mem_append, newline_not_mem_quotedText, hint, hflag]
  decide

theorem newline_not_mem_batchText (events : List KeyEvent) : '\n' ∉ batchText events := by
  intro h
  rcases List.mem_cons.1 h with h | h
  · cases h
  · rcases List.mem_append.1 h with h | h
    · rcases Lib.Separated.mem_of_mem_join h with h | ⟨t, ht, hmem⟩
      · cases h
      · obtain ⟨e, -, rfl⟩ := List.mem_map.1 ht
        exact newline_not_mem_eventText e hmem
    · exact absurd h (by decide)

/-! What the observer hands out. -/

/-- An event that is read back as it was written. -/
structure Plain (e : KeyEvent) : Prop where
  kind : e.kind = ascii "command" ∨ e.kind = ascii "text"
  masked : e.masked = true → e.text = maskText
  atMs : e.atMs.natAbs ≤ 2 ^ 53

variable (o : KeyObserver)

theorem plain_emit (now : ℤ) : Plain (o.emit now).2 where
  kind := by
    show (if o.ssh then ascii "command" else ascii "text") = _ ∨ (if o.ssh then ascii "command" else ascii "text") = _
    cases o.ssh with
    | true => exact Or.inl rfl
    | false => exact Or.inr rfl
  masked h := if_pos h
  atMs := by
    show ((timeSub now o.start).tdiv 1000000).natAbs ≤ 2 ^ 53
    have hsub : (timeSub now o.start).natAbs ≤ 2 ^ 63 := by
      unfold timeSub
      omega
    rw [Int.natAbs_tdiv]
    exact (Nat.div_le_div_right hsub).trans (by decide)

theorem plain_idle (now : ℤ) : ∀ e ∈ (o.idle now).2, Plain e := by
  unfold KeyObserver.idle
  split
  · split_ifs
    · exact List.forall_mem_singleton.2 (plain_emit o now)
    · simp
  · simp

theorem plain_press (now keysym : ℤ) : ∀ e ∈ (o.press now keysym).2, Plain e := by
  unfold KeyObserver.press
  split_ifs
  · exact List.forall_mem_singleton.2 (plain_emit o now)
  all_goals simp

theorem plain_keyOn (x : SeenKey) : ∀ e ∈ (keyOn o x).2, Plain e := by
  cases h : keyDown x.2 with
  | none =>
    rw [keyOn_none h]
    simp
  | some keysym =>
    rw [keyOn_some h]
    exact List.forall_mem_append.2 ⟨plain_idle o x.1, plain_press _ x.1 keysym⟩

theorem plain_observe (now : ℤ) (o : KeyObserver) (raw : Bytes) : ∀ e ∈ (keyObserve now o raw).events, Plain e := by
  rw [keyObserve, (observeLoop_eq (keyAct now) o (Nat.lt_succ_self raw.length)).2.1]
  generalize (instruction.all raw).1 = seen
  induction seen generalizing o with
  | nil => simp [outputs]
  | cons i seen ih => exact List.forall_mem_append.2 ⟨plain_keyOn o (now, i), ih _⟩

theorem plain_batches (messages : List (ℤ × Bytes)) (last : ℤ) :
    ∀ events ∈ batches o messages last, ∀ e ∈ events, Plain e := by
  induction messages generalizing o with
  | nil =>
    refine List.forall_mem_singleton.2 ?_
    rw [keyFlush]
    split_ifs
    · simp
    · exact List.forall_mem_singleton.2 (plain_emit o last)
  | cons m messages ih =>
    rw [batches]
    split_ifs
    · simp
    · exact List.forall_mem_cons.2 ⟨plain_observe m.1 o m.2, ih _⟩

/-! What the console shows. -/

/-- An event as JavaScript has it. -/
def shown (e : KeyEvent) : Replay.KeyEvent := ⟨e.atMs, (text e.kind).flatMap utf16, e.masked, (text e.text).flatMap utf16⟩

theorem property_eventFields :
    Replay.property (eventFields e) "masked" = some (.bool e.masked) ∧
    Replay.property (eventFields e) "atMs" = some (.num (number e.atMs)) ∧
    Replay.property (eventFields e) "kind" = some (.str ((text e.kind).flatMap utf16)) ∧
    Replay.property (eventFields e) "text" = some (.str ((text e.text).flatMap utf16)) :=
  ⟨rfl, rfl, rfl, rfl⟩

theorem keyEventOf_eventFields (engine : Replay.Engine) {e : KeyEvent} (h : Plain e) :
    Replay.keyEventOf engine (eventFields e) = shown e := by
  obtain ⟨hmasked, hatMs, hkind, htext⟩ := property_eventFields e
  have hnumber : engine.number (number e.atMs) = e.atMs := engine.number_decimal e.atMs _ (units_intText e.atMs) h.atMs
  have hname : (if (text e.kind).flatMap utf16 = units "command" then (text e.kind).flatMap utf16 else units "text") =
      (text e.kind).flatMap utf16 := by
    rcases h.kind with hk | hk
    · rw [hk]
      decide
    · rw [hk]
      decide
  have hshown : (if e.masked = true then Replay.maskText else (text e.text).flatMap utf16) = (text e.text).flatMap utf16 := by
    split_ifs with hm
    · rw [h.masked hm]
      decide
    · rfl
  simp only [Replay.keyEventOf, hmasked, hatMs, hkind, htext, hnumber, hname, hshown, shown]

theorem keyEventsOf_batchText (engine : Replay.Engine) (hne : events ≠ []) (h : ∀ e ∈ events, Plain e) :
    Replay.keyEventsOf engine (parse (batchText events)) = events.map shown := by
  rw [parse_of_isText (isText_batchText hne), Replay.keyEventsOf, List.filterMap_map, ← List.filterMap_eq_map']
  exact List.filterMap_congr fun e he => congrArg some (keyEventOf_eventFields engine (h e he))

/-! The writer. -/

theorem postAll_eq (w : KeyWriter) (hw : w.stopped = false) (posted : List (List KeyEvent)) :
    (w.postAll posted).map (·.seq) = List.range' w.seq (w.postAll posted).length ∧
      (w.postAll posted).map (·.data) = (posted.filter (· ≠ [])).map fun events => marshalEvents events ++ [10] := by
  induction posted generalizing w with
  | nil => exact ⟨rfl, rfl⟩
  | cons events posted ih =>
    by_cases hempty : events = []
    · have hpost : w.post events none = (w, []) := if_pos (Or.inl hempty)
      rw [KeyWriter.postAll, hpost, List.nil_append, List.filter_cons_of_neg (by simpa using hempty)]
      exact ih w hw
    · have hpost : w.post events none = ({ w with seq := w.seq + 1, stopped := false },
          [⟨w.tenantID, w.key, w.seq, ascii "keys", [], marshalEvents events ++ [10]⟩]) :=
        if_neg fun h => h.elim hempty (by simp [hw])
      obtain ⟨hseq, hdata⟩ := ih { w with seq := w.seq + 1, stopped := false } rfl
      rw [KeyWriter.postAll, hpost, List.singleton_append, List.filter_cons_of_pos (by simpa using hempty), List.map_cons, List.map_cons,
        List.map_cons, hseq, hdata, List.length_cons, List.range'_succ]
      exact ⟨rfl, rfl⟩

theorem filter_insertionSort {α : Type} (f : α → ℚ) (l : List α) (t : ℚ) :
    (l.insertionSort fun a b => f a ≤ f b).filter (fun a => f a = t) = l.filter fun a => f a = t := by
  have hperm : (l.insertionSort fun a b => f a ≤ f b).Perm l := List.perm_insertionSort _ l
  have hties : (l.filter fun a => f a = t).Pairwise fun a b => f a ≤ f b := by
    refine List.pairwise_of_forall_mem_list fun a ha b hb => ?_
    have hfa := (List.mem_filter.1 ha).2
    have hfb := (List.mem_filter.1 hb).2
    simp only [decide_eq_true_eq] at hfa hfb
    rw [hfa, hfb]
  have hkept := List.sublist_insertionSort hties List.filter_sublist
  have hsub := hkept.filter fun a => decide (f a = t)
  rw [List.filter_filter] at hsub
  simp only [Bool.and_self] at hsub
  exact (hsub.eq_of_length (hperm.filter _).length_eq.symm).symm

/-- Whatever is typed and whenever, and however it comes in messages: the chunks are numbered in the order they were posted, and
from their joined bytes the console gets the events that were posted, by time and at the same time in the order of the posts. -/
theorem keys_replayed (engine : Replay.Engine) (ssh : Bool) (start : ℤ) (messages : List (ℤ × Bytes)) (last : ℤ) (tenantID key : Bytes) :
    let posted := batches (newKeyObserver ssh start) messages last
    let stored := (newKeyWriter tenantID key).postAll posted
    let events := Replay.assembleKeyEvents engine (stored.flatMap (·.data))
    stored.map (·.seq) = List.range stored.length ∧ events.Perm (posted.flatten.map shown) ∧
      events.Pairwise (fun a b => a.atMs ≤ b.atMs) ∧
      ∀ t, events.filter (fun e => e.atMs = t) = (posted.flatten.map shown).filter fun e => e.atMs = t := by
  intro posted stored events
  obtain ⟨hseq, hdata⟩ := postAll_eq (newKeyWriter tenantID key) rfl posted
  have hplain := plain_batches (newKeyObserver ssh start) messages last
  have hraw : stored.flatMap (·.data) = encodeText (Replay.lined ((posted.filter (· ≠ [])).map batchText)) := by
    rw [Replay.encodeText_lined, List.flatMap_map, List.flatMap_def, hdata, List.flatMap_def]
    simp only [marshalEvents_eq]
  have hread : (Replay.parsedLines (engine.utf8 (stored.flatMap (·.data)))).flatMap (Replay.keyEventsOf engine) =
      posted.flatten.map shown := by
    rw [hraw, engine.utf8_encodeText, Replay.parsedLines_lined (List.forall_mem_map.2 fun events _ => newline_not_mem_batchText events)
      (List.forall_mem_map.2 fun events _ => ⟨_, rfl⟩), List.map_map, List.flatMap_map, ← List.flatten_filter_ne_nil, List.map_flatten,
      List.flatMap_def]
    refine congrArg List.flatten (List.map_congr_left fun events hmem => ?_)
    obtain ⟨hposted, hne⟩ := List.mem_filter.1 hmem
    exact keyEventsOf_batchText engine (by simpa using hne) (hplain events hposted)
  have hevents : events = (posted.flatten.map shown).insertionSort fun a b => a.atMs ≤ b.atMs :=
    congrArg (List.insertionSort _) hread
  rw [hevents]
  refine ⟨hseq.trans (List.range_eq_range' ▸ rfl), List.perm_insertionSort _ _, ?_, fun t => filter_insertionSort _ _ t⟩
  have htotal : Std.Total fun a b : Replay.KeyEvent => a.atMs ≤ b.atMs := ⟨fun a b => le_total a.atMs b.atMs⟩
  have htrans : IsTrans Replay.KeyEvent fun a b => a.atMs ≤ b.atMs := ⟨fun _ _ _ => le_trans⟩
  exact List.pairwise_insertionSort _ _

end Captivo.Keys
