import CaptivoAccess.Lib.Utf8Slice
import CaptivoAccess.Proofs.RecSearch

/-! The snippet of a hit. It is cut out of the text at an index that was found in the text in
lower case; where the two differ in length, the snippet is cut beside the hit or behind the
end of the text. -/

namespace Captivo.Search

open Lib.Utf8 Captivo.RecStore Captivo.Proxy
open Captivo.RecFetch (Text)

/-! `strings.ToValidUTF8` of a slice of a text. -/

theorem dropInvalid_error {b : UInt8} {r : Bytes} (h : decodeRune (b :: r) = some (runeError, r)) (n : ℕ) :
    dropInvalid (n + 1) (b :: r) = dropInvalid n r := by
  simp only [dropInvalid, h, List.length_cons, and_self, if_true]

theorem dropInvalid_nil (n : ℕ) : dropInvalid n [] = [] := by
  cases n <;> rfl

theorem dropInvalid_follows {fs : Bytes} (hfs : ∀ f ∈ fs, Follows f) (n : ℕ) (r : Bytes) :
    dropInvalid (fs.length + n) (fs ++ r) = dropInvalid n r := by
  induction fs with
  | nil => rw [List.nil_append, List.length_nil, Nat.zero_add]
  | cons f fs ih =>
    obtain ⟨hf, hfs⟩ := List.forall_mem_cons.1 hfs
    rw [List.length_cons, Nat.succ_add, List.cons_append, dropInvalid_error (decodeRune_follows hf _), ih hfs]

theorem dropInvalid_all_follow {fs : Bytes} (hfs : ∀ f ∈ fs, Follows f) (n : ℕ) : dropInvalid n fs = [] := by
  induction fs generalizing n with
  | nil => exact dropInvalid_nil n
  | cons f fs ih =>
    obtain ⟨hf, hfs⟩ := List.forall_mem_cons.1 hfs
    cases n with
    | zero => rfl
    | succ n => rw [dropInvalid_error (decodeRune_follows hf _), ih hfs]

theorem dropInvalid_cut {part : Bytes} (h : part = [] ∨ CutRune part) (n : ℕ) : dropInvalid n part = [] := by
  cases part with
  | nil => exact dropInvalid_nil n
  | cons b p =>
    have hcut : CutRune (b :: p) := h.resolve_left (List.cons_ne_nil b p)
    cases n with
    | zero => rfl
    | succ n => rw [dropInvalid_error hcut.decodeRune_eq, dropInvalid_all_follow hcut.follows]

theorem dropInvalid_encodeText (t : Text) (n : ℕ) (r : Bytes) :
    dropInvalid (t.length + n) (encodeText t ++ r) = encodeText t ++ dropInvalid n r := by
  induction t with
  | nil => rw [encodeText_nil, List.nil_append, List.nil_append, List.length_nil, Nat.zero_add]
  | cons c t ih =>
    have hwide : ¬ (c.toNat = runeError ∧
        (encodeRune c.toNat ++ (encodeText t ++ r)).length = (encodeText t ++ r).length + 1) := by
      rintro ⟨hc, hlen⟩
      rw [hc, List.length_append, show (encodeRune runeError).length = 3 from rfl] at hlen
      omega
    rw [List.length_cons, Nat.succ_add, encodeText_cons, List.append_assoc]
    simp only [dropInvalid, decodeRune_encodeRune, if_neg hwide]
    rw [ih, List.length_append, Nat.add_sub_cancel, List.take_left, List.append_assoc]

theorem toValidUTF8_eq {fs part : Bytes} (hfs : ∀ f ∈ fs, Follows f) (hpart : part = [] ∨ CutRune part) (t : Text) :
    toValidUTF8 (fs ++ (encodeText t ++ part)) = encodeText t := by
  obtain ⟨n, hn⟩ := Nat.exists_eq_add_of_le (length_le_encodeText t)
  have hlen : (fs ++ (encodeText t ++ part)).length = fs.length + (t.length + (n + part.length)) := by
    rw [List.length_append, List.length_append, hn, Nat.add_assoc]
  rw [toValidUTF8, hlen, dropInvalid_follows hfs, dropInvalid_encodeText, dropInvalid_cut hpart, List.append_nil]

theorem toValidUTF8_slice {t : Text} {s e : ℕ} (hse : s ≤ e) (he : e ≤ (encodeText t).length) :
    ∃ pre mid post, t = pre ++ mid ++ post ∧ toValidUTF8 (((encodeText t).drop s).take (e - s)) = encodeText mid ∧
      ∀ j k, j < k → k ≤ t.length → (s ≤ offset t j ∧ offset t k ≤ e ↔ pre.length ≤ j ∧ k ≤ pre.length + mid.length) := by
  obtain ⟨pre, post, fs, rfl, hdrop, hfs, hlen, hbelow⟩ := drop_encodeText (hse.trans he)
  have hstart : ∀ j, s ≤ offset (pre ++ post) j → pre.length ≤ j := fun j hj =>
    Nat.le_of_not_lt fun hlt => absurd (hbelow j hlt) (Nat.not_lt.2 hj)
  have hpre : offset (pre ++ post) pre.length = (encodeText pre).length := offset_left pre post
  rw [hdrop]
  rcases Nat.lt_or_ge e (encodeText pre).length with hlt | hge
  · -- the slice lies within one rune
    refine ⟨pre, [], post, by rw [List.append_nil], ?_, fun j k hjk _ => ⟨fun h => ?_, fun h => ?_⟩⟩
    · rw [List.take_append_of_le_length (by omega)]
      exact dropInvalid_all_follow (fun f hf => hfs f (List.mem_of_mem_take hf)) _
    · have hmono := offset_mono (pre ++ post) ((hstart j h.1).trans hjk.le)
      omega
    · rw [List.length_nil] at h
      omega
  · obtain ⟨mid, post, part, rfl, htake, hpart, hmid, habove⟩ := take_encodeText post (e - (encodeText pre).length)
    refine ⟨pre, mid, post, by rw [List.append_assoc], ?_, fun j k hjk hk => ⟨fun h => ⟨hstart j h.1, ?_⟩, fun h => ⟨?_, ?_⟩⟩⟩
    · have hsize : e - s = fs.length + (e - (encodeText pre).length) := by omega
      rw [hsize, List.take_length_add_append, htake, toValidUTF8_eq hfs hpart]
    · by_contra hbeyond
      obtain ⟨k, rfl⟩ := Nat.exists_eq_add_of_le ((hstart j h.1).trans hjk.le)
      rw [List.length_append] at hk
      have hk' := habove k (by omega) (by omega)
      rw [offset_append] at h
      omega
    · have hmono := offset_mono (pre ++ (mid ++ post)) h.1
      omega
    · have hmono := offset_mono (pre ++ (mid ++ post)) h.2
      rw [offset_append, offset_left] at hmono
      omega

/-! The snippet of one text. -/

section Text

variable (rt : Runtime) (query needle text : Text)

/-- The needle occurs at the rune `j`, and what stands there lies within the bytes that are cut out for a hit at `i`. -/
structure Near (i j : ℕ) : Prop where
  found : needle <+: (rt.uni.toLower text).drop j
  behind : offset (rt.uni.toLower text) i ≤ offset text j + snippetRadius
  before : offset text (j + needle.length) ≤ offset (rt.uni.toLower text) i + (encodeText query).length + snippetRadius

/-- The snippet is a part of the text in which the needle occurs. -/
def Shows (snippet : Bytes) : Prop :=
  ∃ mid, mid <:+: text ∧ needle <:+: rt.uni.toLower mid ∧ snippet = encodeText mid

/-- The snippet is a part of the text around what stands at `i`. -/
def ShowsAt (i : ℕ) (snippet : Bytes) : Prop :=
  ∃ pre mid post, text = pre ++ mid ++ post ∧ snippet = encodeText mid ∧ pre.length ≤ i ∧ i + needle.length ≤ pre.length + mid.length

/-- What is cut out for a hit at `i`. -/
def snippetAt (i : ℕ) : Option Bytes :=
  snippetAround (encodeText text) (offset (rt.uni.toLower text) i) (encodeText query).length

variable {rt query needle text} {i j : ℕ}

theorem length_toLower (t : Text) : (rt.uni.toLower t).length = t.length := List.length_map _

theorem Near.le_length (h : Near rt query needle text i j) (hneedle : needle ≠ []) : j + needle.length ≤ text.length := by
  have hlen := h.found.length_le
  rw [List.length_drop, length_toLower] at hlen
  have hpos := List.length_pos_iff.2 hneedle
  omega

theorem Near.snippetAt_eq (h : Near rt query needle text i j) (hneedle : needle ≠ []) :
    ∃ snippet, snippetAt rt query text i = some snippet ∧ ShowsAt needle text j snippet := by
  have hpos := List.length_pos_iff.2 hneedle
  have hstart : offset (rt.uni.toLower text) i - snippetRadius ≤ offset text j := Nat.sub_le_of_le_add h.behind
  have hstop : offset text (j + needle.length) ≤
      min (offset (rt.uni.toLower text) i + (encodeText query).length + snippetRadius) (encodeText text).length :=
    le_min h.before (offset_le text _)
  have hle := (hstart.trans (offset_mono text (Nat.le_add_right j needle.length))).trans hstop
  obtain ⟨pre, mid, post, htext, hmid, hwithin⟩ := toValidUTF8_slice hle (min_le_right _ _)
  obtain ⟨hj, hk⟩ := (hwithin j (j + needle.length) (by omega) (h.le_length hneedle)).1 ⟨hstart, hstop⟩
  refine ⟨encodeText mid, ?_, pre, mid, post, htext, rfl, hj, hk⟩
  simp only [snippetAt, snippetAround]
  rw [if_pos hle, hmid]

theorem ShowsAt.shows {snippet : Bytes} (h : ShowsAt needle text j snippet) (hfound : needle <+: (rt.uni.toLower text).drop j) :
    Shows rt needle text snippet := by
  obtain ⟨pre, mid, post, rfl, rfl, hj, hk⟩ := h
  refine ⟨mid, ⟨pre, post, rfl⟩, ?_, rfl⟩
  obtain ⟨j, rfl⟩ := Nat.exists_eq_add_of_le hj
  have hdrop : (rt.uni.toLower (pre ++ mid ++ post)).drop (pre.length + j) =
      (rt.uni.toLower mid).drop j ++ rt.uni.toLower post := by
    rw [Unicode.toLower, List.map_append, List.map_append, List.append_assoc, ← List.drop_drop]
    rw [List.drop_left' (List.length_map _), List.drop_append_of_le_length]
    · rfl
    · rw [List.length_map]
      omega
  rw [hdrop] at hfound
  have hpre : needle <+: (rt.uni.toLower mid).drop j := by
    refine List.prefix_of_prefix_length_le hfound (List.prefix_append _ _) ?_
    rw [List.length_drop, length_toLower]
    omega
  exact hpre.isInfix.trans (List.drop_suffix j _).isInfix

/-- A text is cut without a panic and shows the needle if and only if an occurrence of it lies within these bytes. -/
theorem snippetAt_shows (hneedle : needle ≠ []) :
    (∃ snippet, snippetAt rt query text i = some snippet ∧ Shows rt needle text snippet) ↔ ∃ j, Near rt query needle text i j := by
  constructor
  · rintro ⟨snippet, hsnippet, mid', -, ⟨a, b, hab⟩, rfl⟩
    simp only [snippetAt, snippetAround] at hsnippet
    split_ifs at hsnippet with hle
    obtain ⟨pre, mid, post, rfl, hmid, hwithin⟩ := toValidUTF8_slice hle (min_le_right _ _)
    rw [hmid, Option.some.injEq] at hsnippet
    have heq : mid = mid' := by rw [← text_encodeText mid, hsnippet, text_encodeText]
    subst heq
    have hlen : a.length + needle.length + b.length = mid.length := by
      rw [← @length_toLower rt mid, ← hab, List.length_append, List.length_append]
    have hpos := List.length_pos_iff.2 hneedle
    obtain ⟨hstart, hstop⟩ := (hwithin (pre.length + a.length) (pre.length + a.length + needle.length) (by omega)
      (by simp only [List.length_append]; omega)).2 ⟨by omega, by omega⟩
    refine ⟨pre.length + a.length, ?_, Nat.le_add_of_sub_le hstart, hstop.trans (min_le_left _ _)⟩
    have hdrop : (rt.uni.toLower (pre ++ mid ++ post)).drop (pre.length + a.length) = needle ++ (b ++ rt.uni.toLower post) := by
      have hlower : rt.uni.toLower (pre ++ mid ++ post) = rt.uni.toLower pre ++ (a ++ (needle ++ (b ++ rt.uni.toLower post))) := by
        rw [Unicode.toLower, List.map_append, List.map_append]
        change rt.uni.toLower pre ++ rt.uni.toLower mid ++ rt.uni.toLower post = _
        rw [← hab]
        simp only [List.append_assoc]
      rw [hlower, ← List.drop_drop, List.drop_left' (length_toLower pre), List.drop_left]
    rw [hdrop]
    exact List.prefix_append _ _
  · rintro ⟨j, hnear⟩
    obtain ⟨snippet, hsnippet, hshows⟩ := hnear.snippetAt_eq hneedle
    exact ⟨snippet, hsnippet, hshows.shows hnear.found⟩

end Text

/-! The hits of a search. -/

section Search

variable (rt : Runtime) (query needle : Text)

/-- The event is found: it is not masked and the needle occurs in it. -/
def isHit (e : KeyEvent) : Bool := !e.masked && (indexOf needle (rt.uni.toLower e.text)).isSome

/-- The first event of a chunk that is found. -/
def chunkHit (c : ℤ × Bytes) : Option (ℤ × KeyEvent) :=
  (rt.unmarshal c.2).bind fun evs => (evs.find? (isHit rt needle)).map fun e => (c.1, e)

/-- The first event of a recording that is found, with the number of its chunk. -/
def recordingHit (st : Store) (tenantID key : Bytes) : Option (ℤ × KeyEvent) :=
  match st.keys tenantID key with
  | .error _ => none
  | .ok chunks => chunks.findSome? (chunkHit rt needle)

/-- What is cut out of a text for the first occurrence in it. -/
def snippetOf (text : Text) : Option Bytes := (indexOf needle (rt.uni.toLower text)).bind (snippetAt rt query text)

/-- What becomes of the first event that is found, if there is one. -/
def report (key : Bytes) : Option (ℤ × KeyEvent) → Option (Option RecSearchMatch)
  | none => some none
  | some (seq, e) => (snippetOf rt query needle e.text).map fun snippet => some ⟨key, seq, snippet⟩

variable {rt query needle}

theorem searchEvents_eq (key : Bytes) (seq : ℤ) (evs : List KeyEvent) :
    searchEvents rt query needle key seq evs = report rt query needle key ((evs.find? (isHit rt needle)).map fun e => (seq, e)) := by
  induction evs with
  | nil => rfl
  | cons e evs ih =>
    rw [searchEvents, List.find?_cons, isHit]
    cases e.masked with
    | true => exact ih
    | false =>
      cases hindex : indexOf needle (rt.uni.toLower e.text) with
      | none => exact ih
      | some i =>
        simp only [Bool.false_eq_true, if_false, Bool.not_false, Bool.true_and, Option.isSome_some, Option.map_some, report,
          snippetOf, hindex, Option.bind_some]
        rfl

theorem searchChunk_eq (key : Bytes) (c : ℤ × Bytes) :
    searchChunk rt query needle key c = report rt query needle key (chunkHit rt needle c) := by
  rw [searchChunk, chunkHit]
  cases rt.unmarshal c.2 with
  | none => rfl
  | some evs => exact searchEvents_eq key c.1 evs

theorem searchChunks_hit (key : Bytes) (budget : ℕ) (chunks : List (ℤ × Bytes)) :
    (searchChunks rt query needle key budget chunks).map Scan.hit =
      report rt query needle key ((chunks.take budget).findSome? (chunkHit rt needle)) := by
  induction chunks generalizing budget with
  | nil =>
    rw [searchChunks, List.take_nil]
    rfl
  | cons c chunks ih =>
    cases budget with
    | zero =>
      rw [searchChunks]
      rfl
    | succ budget =>
      rw [searchChunks_cons, searchChunk_eq, List.take_succ_cons, List.findSome?_cons]
      cases chunkHit rt needle c with
      | none => exact ih budget
      | some hit =>
        simp only [report]
        cases snippetOf rt query needle hit.2.text with
        | none => rfl
        | some snippet => rfl

variable {P : Text → Bytes → Prop}

/-- Where every snippet is cut without a panic and as it should be, so is every one that a search reports. -/
theorem searchKeys_reports {st : Store} {tenantID : Bytes}
    (h : ∀ key seq e, recordingHit rt needle st tenantID key = some (seq, e) →
      ∃ snippet, snippetOf rt query needle e.text = some snippet ∧ P e.text snippet) (budget : ℕ) (keys : List Bytes) :
    ∃ resp, searchKeys rt st tenantID query needle budget keys = some resp ∧ ∀ m ∈ resp.found,
      ∃ e, recordingHit rt needle st tenantID m.recordingKey = some (m.seq, e) ∧ P e.text m.snippet := by
  induction keys generalizing budget with
  | nil => exact ⟨⟨[], false⟩, by rw [searchKeys], List.forall_mem_nil _⟩
  | cons key keys ih =>
    cases budget with
    | zero => exact ⟨⟨[], true⟩, by rw [searchKeys], List.forall_mem_nil _⟩
    | succ budget =>
      rw [searchKeys]
      cases hkeys : st.keys tenantID key with
      | error e => exact ih (budget + 1)
      | ok chunks =>
        -- what is reported of this recording is its first hit
        have hfirst : ∃ scan, searchChunks rt query needle key (budget + 1) chunks = some scan ∧ ∀ m ∈ scan.hit.toList,
            ∃ e, recordingHit rt needle st tenantID m.recordingKey = some (m.seq, e) ∧ P e.text m.snippet := by
          have hhit := @searchChunks_hit rt query needle key (budget + 1) chunks
          cases hfind : (chunks.take (budget + 1)).findSome? (chunkHit rt needle) with
          | none =>
            rw [hfind] at hhit
            obtain ⟨scan, hscan, hnone⟩ := Option.map_eq_some_iff.1 hhit
            refine ⟨scan, hscan, fun m hm => ?_⟩
            rw [hnone] at hm
            cases hm
          | some seqe =>
            obtain ⟨seq, e⟩ := seqe
            have hrec : recordingHit rt needle st tenantID key = some (seq, e) := by
              simp only [recordingHit, hkeys]
              rw [← List.take_append_drop (budget + 1) chunks, List.findSome?_append, hfind, Option.some_or]
            obtain ⟨snippet, hsnippet, hP⟩ := h key seq e hrec
            rw [hfind, report, hsnippet] at hhit
            obtain ⟨scan, hscan, hm⟩ := Option.map_eq_some_iff.1 hhit
            refine ⟨scan, hscan, fun m hmem => ?_⟩
            rw [hm, Option.toList_some, List.mem_singleton] at hmem
            rw [hmem]
            exact ⟨e, hrec, hP⟩
        obtain ⟨scan, hscan, hshown⟩ := hfirst
        obtain ⟨rest, hrest, hlater⟩ := ih scan.budget
        simp only [hscan, hrest, Option.map_some]
        exact ⟨_, rfl, fun m hm => (List.mem_append.1 hm).elim (hshown m) (hlater m)⟩

theorem searchKeys_singleton {st : Store} {tenantID key : Bytes} {seq : ℤ} {e : KeyEvent}
    (h : recordingHit rt needle st tenantID key = some (seq, e)) :
    ∃ budget : ℕ, 0 < budget ∧ (searchKeys rt st tenantID query needle budget [key]).map RecSearchResponse.found =
      (snippetOf rt query needle e.text).map fun snippet => [⟨key, seq, snippet⟩] := by
  rw [recordingHit] at h
  cases hkeys : st.keys tenantID key with
  | error err =>
    rw [hkeys] at h
    cases h
  | ok chunks =>
    rw [hkeys] at h
    cases chunks with
    | nil => cases h
    | cons c chunks =>
      refine ⟨chunks.length + 1, Nat.succ_pos _, ?_⟩
      simp only at h
      have hhit := @searchChunks_hit rt query needle key (chunks.length + 1) (c :: chunks)
      rw [List.take_of_length_le (List.length_cons ▸ le_rfl), h, report] at hhit
      rw [searchKeys, hkeys]
      simp only [searchKeys]
      cases hscan : searchChunks rt query needle key (chunks.length + 1) (c :: chunks) with
      | none =>
        rw [hscan] at hhit
        cases hsnippet : snippetOf rt query needle e.text with
        | none => rfl
        | some snippet =>
          rw [hsnippet] at hhit
          cases hhit
      | some scan =>
        rw [hscan] at hhit
        cases hsnippet : snippetOf rt query needle e.text with
        | none =>
          rw [hsnippet] at hhit
          cases hhit
        | some snippet =>
          rw [hsnippet, Option.map_some, Option.map_some, Option.some.injEq] at hhit
          simp [hhit]

/-- What is looked for. -/
def needleOf (rt : Runtime) (query : Text) : Text := rt.uni.toLower (trimSpace query)

/-- Every search for the query in this store returns, and what it reports of a text is as it should be. -/
def Reports (rt : Runtime) (st : Store) (tenantID : Bytes) (query : Text) (P : Text → Bytes → Prop) : Prop :=
  ∀ keys maxDecrypt, ∃ resp, searchStore rt st ⟨tenantID, query, keys, maxDecrypt⟩ = some resp ∧ ∀ m ∈ resp.found,
    ∃ e, recordingHit rt (needleOf rt query) st tenantID m.recordingKey = some (m.seq, e) ∧ P e.text m.snippet

theorem reports_of_hits {st : Store} {tenantID : Bytes}
    (h : needleOf rt query ≠ [] → ∀ key seq e, recordingHit rt (needleOf rt query) st tenantID key = some (seq, e) →
      ∃ snippet, snippetOf rt query (needleOf rt query) e.text = some snippet ∧ P e.text snippet) :
    Reports rt st tenantID query P := by
  intro keys maxDecrypt
  rw [searchStore]
  split_ifs with hempty hmax
  · exact ⟨_, rfl, List.forall_mem_nil _⟩
  · exact searchKeys_reports (h hempty) _ _
  · exact searchKeys_reports (h hempty) _ _

/-- A recording that has a hit is reported with it, or the search for it panics. -/
theorem Reports.of_hit {st : Store} {tenantID : Bytes} (hne : needleOf rt query ≠ [])
    (h : Reports rt st tenantID query P) {key : Bytes} {seq : ℤ} {e : KeyEvent}
    (hhit : recordingHit rt (needleOf rt query) st tenantID key = some (seq, e)) :
    ∃ snippet, snippetOf rt query (needleOf rt query) e.text = some snippet ∧ P e.text snippet := by
  obtain ⟨budget, hbudget, hfound⟩ := @searchKeys_singleton rt query _ st tenantID key seq e hhit
  obtain ⟨resp, hresp, hshown⟩ := h [key] budget
  have hkeys : searchKeys rt st tenantID query (needleOf rt query) budget [key] = some resp := by
    have hmax : ¬ (budget : ℤ) ≤ 0 := by omega
    rw [searchStore] at hresp
    simpa only [if_neg hmax, Int.toNat_natCast, needleOf] using (if_neg hne).symm.trans hresp
  rw [hkeys, Option.map_some] at hfound
  obtain ⟨snippet, hsnippet, hlist⟩ := Option.map_eq_some_iff.1 hfound.symm
  obtain ⟨e', he', hP⟩ := hshown ⟨key, seq, snippet⟩ (by rw [← hlist]; exact List.mem_singleton_self _)
  rw [hhit, Option.some.injEq, Prod.mk.injEq] at he'
  rw [← he'.2] at hP
  exact ⟨snippet, hsnippet, hP⟩

theorem indexOf_of_hit {st : Store} {tenantID key : Bytes} {seq : ℤ} {e : KeyEvent}
    (h : recordingHit rt needle st tenantID key = some (seq, e)) : ∃ i, indexOf needle (rt.uni.toLower e.text) = some i := by
  rw [recordingHit] at h
  split at h
  · cases h
  · obtain ⟨c, -, hc⟩ := List.exists_of_findSome?_eq_some h
    obtain ⟨evs, -, hevs⟩ := Option.bind_eq_some_iff.1 hc
    obtain ⟨e', he', heq⟩ := Option.map_eq_some_iff.1 hevs
    obtain ⟨-, rfl⟩ := Prod.mk.inj heq
    have hit := List.find?_some he'
    rw [isHit, Bool.and_eq_true] at hit
    exact Option.isSome_iff_exists.1 hit.2

theorem indexOf_nil (t : Text) : indexOf [] t = some 0 := by
  cases t <;> rfl

end Search

/-- For every store and every query: all searches for it return, and each snippet is a part of the text with the query in it up to
case, if and only if in every recording the first text that is found has the query within the bytes that are cut out around the index in
lower case. Where the first occurrence of it is there, the snippets are around that one. -/
theorem snippets_show_match (rt : Runtime) (st : Store) (tenantID : Bytes) (query : Text) :
    (Reports rt st tenantID query (Shows rt (needleOf rt query)) ↔
      ∀ key seq e i, recordingHit rt (needleOf rt query) st tenantID key = some (seq, e) →
        indexOf (needleOf rt query) (rt.uni.toLower e.text) = some i → ∃ j, Near rt query (needleOf rt query) e.text i j) ∧
    ((∀ key seq e i, recordingHit rt (needleOf rt query) st tenantID key = some (seq, e) →
        indexOf (needleOf rt query) (rt.uni.toLower e.text) = some i → Near rt query (needleOf rt query) e.text i i) →
      Reports rt st tenantID query fun text snippet =>
        ∃ i, indexOf (needleOf rt query) (rt.uni.toLower text) = some i ∧ ShowsAt (needleOf rt query) text i snippet) := by
  refine ⟨⟨fun hreports key seq e i hhit hindex => ?_, fun hnear => reports_of_hits fun hne key seq e hhit => ?_⟩,
    fun hnear => reports_of_hits fun hne key seq e hhit => ?_⟩
  · by_cases hne : needleOf rt query = []
    · rw [hne, indexOf_nil, Option.some.injEq] at hindex
      rw [hne, ← hindex]
      exact ⟨0, List.nil_prefix, Nat.zero_le _, Nat.zero_le _⟩
    · obtain ⟨snippet, hsnippet, hshows⟩ := hreports.of_hit hne hhit
      rw [snippetOf, hindex, Option.bind_some] at hsnippet
      exact (snippetAt_shows hne).1 ⟨snippet, hsnippet, hshows⟩
  · obtain ⟨i, hindex⟩ := indexOf_of_hit hhit
    rw [snippetOf, hindex, Option.bind_some]
    exact (snippetAt_shows hne).2 (hnear key seq e i hhit hindex)
  · obtain ⟨i, hindex⟩ := indexOf_of_hit hhit
    rw [snippetOf, hindex, Option.bind_some]
    obtain ⟨snippet, hsnippet, hshows⟩ := (hnear key seq e i hhit hindex).snippetAt_eq hne
    exact ⟨snippet, hsnippet, i, rfl, hshows⟩

/-- The tables with the Kelvin sign, whose lower case is shorter, and an A with a stroke, whose lower case is longer. -/
def strokeTables : Unicode where
  lower c := if c = '\u212a' then 'k' else if c = '\u023a' then '\u2c65' else c.toLower
  fold := Char.toLower
  lower_ascii := by
    intro c hc
    have hkelvin : c ≠ '\u212a' := by
      rintro rfl
      exact absurd hc (by decide)
    have hstroke : c ≠ '\u023a' := by
      rintro rfl
      exact absurd hc (by decide)
    rw [if_neg hkelvin, if_neg hstroke]
  fold_ascii := toLower_ascii

/-- A recording of one command. -/
def strokeRuntime (text : Text) : Runtime := ⟨strokeTables, fun _ => some [⟨0, "command".toList, text, false⟩]⟩

/-- Behind thirty Kelvin signs the snippet ends before the command that was found; behind fifty A with a stroke it would begin behind
the end of the text. -/
theorem snippet_beside_match :
    searchStore (strokeRuntime (List.replicate 30 '\u212a' ++ "ls".toList)) typedStore ⟨[116], "ls".toList, [[107]], 0⟩ =
        some ⟨[⟨[107], 0, encodeText (List.replicate 24 '\u212a')⟩], false⟩ ∧
      searchStore (strokeRuntime (List.replicate 50 '\u023a' ++ "ls".toList)) typedStore ⟨[116], "ls".toList, [[107]], 0⟩ = none := by
  decide +kernel

end Captivo.Search
