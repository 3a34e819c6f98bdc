import CaptivoAccess.Spec.RecSearch

/-! What a search over the connectors finds. Where an answer is neither partial nor cut
short by the budget, and the body of every success was read, the matched keys are those of
the candidates with an unmasked event that has the query in it. -/

namespace Captivo.Search

open Lib.Utf8 Lib.Group Captivo.RecStore Captivo.Proxy
open Captivo.RecFetch (Text)

variable (rt : Runtime)

theorem isSome_indexOf (needle t : Text) : (indexOf needle t).isSome ↔ needle <:+: t := by
  induction t with
  | nil => by_cases h : needle = [] <;> simp [indexOf, h]
  | cons c t ih =>
    rw [List.infix_cons_iff, indexOf]
    by_cases h : needle.isPrefixOf (c :: t) = true
    · simp [h, List.isPrefixOf_iff_prefix.1 h]
    · have hp : ¬ needle <+: c :: t := fun hp => h (List.isPrefixOf_iff_prefix.2 hp)
      simp [h, hp, ih]

/-- An event that is found: it is not masked and the needle is in its text. -/
def Hits (needle : Text) (e : KeyEvent) : Prop := e.masked = false ∧ needle <:+: rt.uni.toLower e.text

/-- A chunk that is read to events of which one is found. -/
def ChunkHits (needle : Text) (data : Bytes) : Prop := ∃ evs, rt.unmarshal data = some evs ∧ ∃ e ∈ evs, Hits rt needle e

/-- A recording with such a chunk in its keystroke stream. -/
def StoreHits (st : Store) (tenantID : Bytes) (needle : Text) (key : Bytes) : Prop :=
  ∃ chunks, st.keys tenantID key = .ok chunks ∧ ∃ c ∈ chunks, ChunkHits rt needle c.2

variable {rt}

/-- The outcome of looking through a list for the first that is a hit: it is of the recording and there is one, or there is
none if all were looked at. -/
structure Finds {α : Type} (hits : α → Prop) (key : Bytes) (xs : List α) (hit : Option RecSearchMatch) (all : Prop) : Prop where
  missed : hit = none → all → ∀ x ∈ xs, ¬ hits x
  met : ∀ m, hit = some m → m.recordingKey = key ∧ ∃ x ∈ xs, hits x

section Finds

variable {α : Type} {hits : α → Prop} {key : Bytes} {xs : List α} {hit : Option RecSearchMatch} {all : Prop} {x : α}

theorem finds_nil : Finds hits key [] none all :=
  ⟨fun _ _ _ hx => (nomatch hx), fun _ hm => (nomatch hm)⟩

theorem Finds.pass (h : Finds hits key xs hit all) (hx : ¬ hits x) : Finds hits key (x :: xs) hit all := by
  refine ⟨fun hnone hall => List.forall_mem_cons.2 ⟨hx, h.missed hnone hall⟩, fun m hm => ?_⟩
  obtain ⟨hkey, x', hx', hhit⟩ := h.met m hm
  exact ⟨hkey, x', List.mem_cons_of_mem _ hx', hhit⟩

theorem finds_head {m : RecSearchMatch} (hkey : m.recordingKey = key) (hx : hits x) : Finds hits key (x :: xs) (some m) all := by
  refine ⟨fun hnone => (nomatch hnone), fun m' hm => ?_⟩
  rw [← Option.some.inj hm]
  exact ⟨hkey, x, List.mem_cons_self, hx⟩

end Finds

theorem searchEvents_spec {query needle : Text} {key : Bytes} {seq : ℤ} {evs : List KeyEvent} {r : Option RecSearchMatch}
    (h : searchEvents rt query needle key seq evs = some r) : Finds (Hits rt needle) key evs r True := by
  induction evs with
  | nil =>
    rw [searchEvents, Option.some.injEq] at h
    subst h
    exact finds_nil
  | cons e evs ih =>
    rw [searchEvents] at h
    split_ifs at h with hmask
    · exact (ih h).pass fun hhit => by rw [hhit.1] at hmask; cases hmask
    · rw [Bool.not_eq_true] at hmask
      split at h
      · rename_i hidx
        refine (ih h).pass fun hhit => ?_
        rw [← Option.not_isSome_iff_eq_none, isSome_indexOf] at hidx
        exact hidx hhit.2
      · rename_i i hidx
        obtain ⟨snippet, -, rfl⟩ := Option.map_eq_some_iff.1 h
        exact finds_head rfl ⟨hmask, (isSome_indexOf _ _).1 (by rw [hidx]; rfl)⟩

/-- What a chunk gives: its first hit if it has one, and none if it is no list of events. -/
def searchChunk (rt : Runtime) (query needle : Text) (key : Bytes) (c : ℤ × Bytes) : Option (Option RecSearchMatch) :=
  match rt.unmarshal c.2 with
  | none => some none
  | some evs => searchEvents rt query needle key c.1 evs

theorem searchChunks_cons (query needle : Text) (key : Bytes) (budget : ℕ) (c : ℤ × Bytes) (chunks : List (ℤ × Bytes)) :
    searchChunks rt query needle key (budget + 1) (c :: chunks) =
      (searchChunk rt query needle key c).bind fun
        | some m => some ⟨some m, budget, false⟩
        | none => searchChunks rt query needle key budget chunks := by
  obtain ⟨seq, data⟩ := c
  rw [searchChunks, searchChunk]
  cases rt.unmarshal data with
  | none => rfl
  | some evs =>
    simp only
    rcases searchEvents rt query needle key seq evs with _ | _ | m <;> rfl

theorem searchChunk_spec {query needle : Text} {key : Bytes} {c : ℤ × Bytes} {r : Option RecSearchMatch}
    (h : searchChunk rt query needle key c = some r) :
    (r = none → ¬ ChunkHits rt needle c.2) ∧ ∀ m, r = some m → m.recordingKey = key ∧ ChunkHits rt needle c.2 := by
  rw [searchChunk] at h
  cases hevs : rt.unmarshal c.2 with
  | none =>
    rw [hevs, Option.some.injEq] at h
    subst h
    refine ⟨fun _ => ?_, fun m hm => (nomatch hm)⟩
    rintro ⟨evs, he, -⟩
    rw [hevs] at he
    cases he
  | some evs =>
    rw [hevs] at h
    have hfinds := searchEvents_spec h
    refine ⟨fun hnone => ?_, fun m hm => ⟨(hfinds.met m hm).1, evs, hevs, (hfinds.met m hm).2⟩⟩
    rintro ⟨evs', he, e, hmem, hhit⟩
    rw [hevs, Option.some.injEq] at he
    subst he
    exact hfinds.missed hnone trivial e hmem hhit

theorem searchChunks_spec {query needle : Text} {key : Bytes} {budget : ℕ} {chunks : List (ℤ × Bytes)} {scan : Scan}
    (h : searchChunks rt query needle key budget chunks = some scan) :
    Finds (fun c => ChunkHits rt needle c.2) key chunks scan.hit (scan.truncated = false) := by
  induction chunks generalizing budget with
  | nil =>
    rw [searchChunks, Option.some.injEq] at h
    subst h
    exact finds_nil
  | cons c chunks ih =>
    cases budget with
    | zero =>
      rw [searchChunks, Option.some.injEq] at h
      subst h
      exact ⟨fun _ ht => (nomatch ht), fun m hm => (nomatch hm)⟩
    | succ budget =>
      rw [searchChunks_cons] at h
      obtain ⟨r, hr, h⟩ := Option.bind_eq_some_iff.1 h
      obtain ⟨hmissed, hmet⟩ := searchChunk_spec hr
      cases r with
      | none => exact (ih h).pass (hmissed rfl)
      | some m =>
        rw [Option.some.injEq] at h
        subst h
        exact finds_head (hmet m rfl).1 (hmet m rfl).2

/-- The next recording: the budget is spent, its stream cannot be read, or its chunks are searched. -/
theorem searchKeys_cons {st : Store} {tenantID : Bytes} {query needle : Text} {budget : ℕ} {key : Bytes} {keys : List Bytes}
    {resp : RecSearchResponse} (h : searchKeys rt st tenantID query needle budget (key :: keys) = some resp) :
    resp = ⟨[], true⟩ ∨
      (∃ e, st.keys tenantID key = .error e ∧ searchKeys rt st tenantID query needle budget keys = some resp) ∨
      ∃ chunks scan rest, st.keys tenantID key = .ok chunks ∧ searchChunks rt query needle key budget chunks = some scan ∧
        searchKeys rt st tenantID query needle scan.budget keys = some rest ∧
        resp = ⟨scan.hit.toList ++ rest.found, scan.truncated || rest.truncated⟩ := by
  cases budget with
  | zero => exact Or.inl (Option.some.inj h).symm
  | succ budget =>
    rw [searchKeys] at h
    cases hkeys : st.keys tenantID key with
    | error e =>
      rw [hkeys] at h
      exact Or.inr (Or.inl ⟨e, rfl, h⟩)
    | ok chunks =>
      rw [hkeys] at h
      simp only at h
      cases hscan : searchChunks rt query needle key (budget + 1) chunks with
      | none =>
        rw [hscan] at h
        cases h
      | some scan =>
        rw [hscan] at h
        obtain ⟨rest, hrest, rfl⟩ := Option.map_eq_some_iff.1 h
        exact Or.inr (Or.inr ⟨chunks, scan, rest, rfl, hscan, hrest, rfl⟩)

theorem searchKeys_spec {st : Store} {tenantID : Bytes} {query needle : Text} {budget : ℕ} {keys : List Bytes}
    {resp : RecSearchResponse} (h : searchKeys rt st tenantID query needle budget keys = some resp) :
    (∀ m ∈ resp.found, m.recordingKey ∈ keys ∧ StoreHits rt st tenantID needle m.recordingKey) ∧
      (resp.truncated = false → ∀ key ∈ keys, StoreHits rt st tenantID needle key → key ∈ resp.found.map RecSearchMatch.recordingKey) := by
  induction keys generalizing budget resp with
  | nil =>
    rw [searchKeys, Option.some.injEq] at h
    subst h
    exact ⟨fun m hm => (nomatch hm), fun _ key hkey => (nomatch hkey)⟩
  | cons key keys ih =>
    rcases searchKeys_cons h with rfl | ⟨e, hkeys, hrest⟩ | ⟨chunks, scan, rest, hkeys, hscan, hrest, rfl⟩
    · exact ⟨fun m hm => (nomatch hm), fun ht => (nomatch ht)⟩
    · obtain ⟨hsound, hcomplete⟩ := ih hrest
      refine ⟨fun m hm => ⟨List.mem_cons_of_mem _ (hsound m hm).1, (hsound m hm).2⟩, fun ht => ?_⟩
      refine List.forall_mem_cons.2 ⟨?_, hcomplete ht⟩
      rintro ⟨chunks, hc, -⟩
      rw [hkeys] at hc
      cases hc
    · obtain ⟨hsound, hcomplete⟩ := ih hrest
      have hfinds := searchChunks_spec hscan
      refine ⟨fun m hm => ?_, fun ht => ?_⟩
      · rcases List.mem_append.1 hm with hm | hm
        · obtain ⟨hkey, hhit⟩ := hfinds.met m (Option.mem_toList.1 hm)
          rw [hkey]
          exact ⟨List.mem_cons_self, chunks, hkeys, hhit⟩
        · exact ⟨List.mem_cons_of_mem _ (hsound m hm).1, (hsound m hm).2⟩
      · rw [Bool.or_eq_false_iff] at ht
        rw [List.map_append]
        refine List.forall_mem_cons.2 ⟨?_, fun key' hkey' hhit => List.mem_append_right _ (hcomplete ht.2 key' hkey' hhit)⟩
        rintro ⟨chunks', hc, c, hmem, hhit⟩
        rw [hkeys, Except.ok.injEq] at hc
        subst hc
        cases hm : scan.hit with
        | none => exact absurd hhit (hfinds.missed hm ht.1 c hmem)
        | some m => simp [← (hfinds.met m hm).1]

/-! The answers put together. -/

theorem foldl_addMatch (found : List RecSearchMatch) (acc : FanOutResult) :
    (found.foldl addMatch acc).isPartial = acc.isPartial ∧ (found.foldl addMatch acc).truncated = acc.truncated ∧
      (found.foldl addMatch acc).unreachableConnectors = acc.unreachableConnectors ∧
      (∀ key, key ∈ (found.foldl addMatch acc).matchedKeys ↔
        key ∈ acc.matchedKeys ∨ key ∈ found.map RecSearchMatch.recordingKey) ∧
      (acc.matchedKeys.Nodup → (found.foldl addMatch acc).matchedKeys.Nodup) := by
  induction found generalizing acc with
  | nil => simp
  | cons m found ih =>
    rw [List.foldl_cons]
    obtain ⟨hp, ht, hu, hk, hn⟩ := ih (addMatch acc m)
    refine ⟨hp, ht, hu, fun key => ?_, fun hacc => hn ?_⟩
    · rw [hk, List.map_cons, List.mem_cons]
      by_cases hm : m.recordingKey ∈ acc.matchedKeys
      · simp only [addMatch, hm, if_true]
        constructor
        · rintro (h | h)
          · exact Or.inl h
          · exact Or.inr (Or.inr h)
        · rintro (h | rfl | h)
          · exact Or.inl h
          · exact Or.inl hm
          · exact Or.inr h
      · simp only [addMatch, hm, if_false, List.mem_append, List.mem_singleton, or_assoc]
    · by_cases hm : m.recordingKey ∈ acc.matchedKeys
      · simpa [addMatch, hm] using hacc
      · simp only [addMatch, hm, if_false, List.nodup_append, List.nodup_singleton, true_and]
        exact ⟨hacc, fun a ha b hb hab => hm (List.mem_singleton.1 hb ▸ hab ▸ ha)⟩

/-- What the answers add to a result. -/
structure Merged (acc : FanOutResult) (results : List (Text × RecSearchResult)) (fan : FanOutResult) : Prop where
  isPartial : fan.isPartial = true ↔ acc.isPartial = true ∨ ∃ id, (id, .failed) ∈ results
  truncated : fan.truncated = true ↔ acc.truncated = true ∨ ∃ id found, (id, .ok found true) ∈ results
  unreachable : ∀ id, id ∈ fan.unreachableConnectors ↔ id ∈ acc.unreachableConnectors ∨ (id, .failed) ∈ results
  matched : ∀ key, key ∈ fan.matchedKeys ↔ key ∈ acc.matchedKeys ∨
    ∃ id found truncated, (id, .ok found truncated) ∈ results ∧ key ∈ found.map RecSearchMatch.recordingKey
  nodup : acc.matchedKeys.Nodup → fan.matchedKeys.Nodup

theorem merged_foldl (results : List (Text × RecSearchResult)) (acc : FanOutResult) :
    Merged acc results (results.foldl merge acc) := by
  induction results generalizing acc with
  | nil => constructor <;> simp
  | cons r results ih =>
    obtain ⟨id, res⟩ := r
    have hrest := ih (merge acc (id, res))
    rw [List.foldl_cons]
    cases res with
    | failed =>
      refine ⟨hrest.isPartial.trans ?_, hrest.truncated.trans ?_, fun id' => (hrest.unreachable id').trans ?_,
        fun key => (hrest.matched key).trans ?_, hrest.nodup⟩
      · simp [merge]
      · simp [merge]
      · simp [merge, or_assoc]
      · simp [merge]
    | ok found truncated =>
      obtain ⟨hp, ht, hu, hk, hn⟩ := foldl_addMatch found { acc with truncated := acc.truncated || truncated }
      refine ⟨hrest.isPartial.trans ?_, hrest.truncated.trans ?_, fun id' => (hrest.unreachable id').trans ?_,
        fun key => (hrest.matched key).trans ?_, fun hacc => hrest.nodup (hn hacc)⟩
      · simp [merge, hp]
      · simp only [merge, ht, Bool.or_eq_true, or_assoc, List.mem_cons, Prod.mk.injEq, RecSearchResult.ok.injEq]
        refine or_congr_right ⟨?_, ?_⟩
        · rintro (rfl | ⟨id', found', hmem⟩)
          · exact ⟨id, found, Or.inl ⟨rfl, rfl, rfl⟩⟩
          · exact ⟨id', found', Or.inr hmem⟩
        · rintro ⟨id', found', ⟨-, -, rfl⟩ | hmem⟩
          · exact Or.inl rfl
          · exact Or.inr ⟨id', found', hmem⟩
      · simp [merge, hu]
      · simp only [merge, hk, or_assoc, List.mem_cons, Prod.mk.injEq, RecSearchResult.ok.injEq]
        refine or_congr_right ⟨?_, ?_⟩
        · rintro (hkey | ⟨id', found', truncated', hmem, hkey⟩)
          · exact ⟨id, found, truncated, Or.inl ⟨rfl, rfl, rfl⟩, hkey⟩
          · exact ⟨id', found', truncated', Or.inr hmem, hkey⟩
        · rintro ⟨id', found', truncated', ⟨-, rfl, -⟩ | hmem, hkey⟩
          · exact Or.inl hkey
          · exact Or.inr ⟨id', found', truncated', hmem, hkey⟩

/-- The recordings that a connector is asked about. -/
def keysAt (candidates : List SearchCandidate) (id : Text) : List Bytes :=
  (candidates.filter fun c => c.connector = some id).map SearchCandidate.recordingKey

theorem byConnector_spec (candidates : List SearchCandidate) :
    (keys (byConnector candidates).1).Nodup ∧ (∀ id, groupOf id (byConnector candidates).1 = keysAt candidates id) ∧
      (∀ id, id ∈ keys (byConnector candidates).1 ↔ ∃ c ∈ candidates, c.connector = some id) ∧
      ((byConnector candidates).2 = true ↔ ∃ c ∈ candidates, c.connector = none) := by
  induction candidates using List.reverseRecOn with
  | nil => simp [byConnector, keys, groupOf, keysAt]
  | append_singleton candidates c ih =>
    obtain ⟨hn, hg, hk, hf⟩ := ih
    cases hc : c.connector with
    | none =>
      have hsnoc : byConnector (candidates ++ [c]) = ((byConnector candidates).1, true) := by
        simp [byConnector, hc]
      refine ⟨by rw [hsnoc]; exact hn, fun id => ?_, fun id => ?_, ?_⟩
      · rw [hsnoc, hg]
        simp [keysAt, hc]
      · rw [hsnoc, hk]
        simp [or_and_right, exists_or, hc]
      · rw [hsnoc]
        simp [or_and_right, exists_or, hc]
    | some cid =>
      have hsnoc : byConnector (candidates ++ [c]) =
          (push cid c.recordingKey (byConnector candidates).1, (byConnector candidates).2) := by
        simp [byConnector, hc]
      refine ⟨by rw [hsnoc]; exact nodup_push hn, fun id => ?_, fun id => ?_, ?_⟩
      · rw [hsnoc, groupOf_push, hg]
        by_cases he : cid = id
        · simp [keysAt, hc, he]
        · simp [keysAt, hc, he]
      · rw [hsnoc, mem_keys_push_iff, hk]
        simp only [List.mem_append, List.mem_singleton, or_and_right, exists_or, exists_eq_left, hc, Option.some.injEq]
        rw [or_comm, eq_comm]
      · rw [hsnoc, hf]
        simp [or_and_right, exists_or, hc]

variable (rt) in
/-- What the manager makes of the answer of one connector. -/
def outcome (net : Network) (tenantId : Bytes) (query : Text) (candidates : List SearchCandidate) (id : Text) : RecSearchResult :=
  searchOnConnector rt net id (requestTo tenantId query (keysAt candidates id))

theorem mem_answers {net : Network} {tenantId : Bytes} {query : Text} {candidates : List SearchCandidate} {id : Text}
    {r : RecSearchResult} :
    (id, r) ∈ answers rt net tenantId query (byConnector candidates).1 ↔
      (∃ c ∈ candidates, c.connector = some id) ∧ outcome rt net tenantId query candidates id = r := by
  obtain ⟨hn, hg, hk, -⟩ := byConnector_spec candidates
  rw [answers, List.mem_map, ← hk, outcome, ← hg]
  constructor
  · rintro ⟨⟨id', ks⟩, hmem, he⟩
    obtain ⟨rfl, rfl⟩ := Prod.mk.inj he
    exact ⟨List.mem_map_of_mem hmem, by rw [groupOf_of_mem hn hmem]⟩
  · rintro ⟨hid, rfl⟩
    obtain ⟨⟨id', ks⟩, hmem, rfl⟩ := List.mem_map.1 hid
    exact ⟨_, hmem, by rw [groupOf_of_mem hn hmem]⟩

theorem search_eq {net : Network} {tenantId : Bytes} {query : Text} (candidates : List SearchCandidate)
    (hq : Captivo.RecFetch.trim query ≠ []) :
    searchRecordingsOnConnectors rt net tenantId query candidates =
      (answers rt net tenantId (Captivo.RecFetch.trim query) (byConnector candidates).1).foldl merge
        { noResult with isPartial := (byConnector candidates).2 } := by
  unfold searchRecordingsOnConnectors
  by_cases hc : candidates = []
  · subst hc
    simp [byConnector, answers, noResult]
  · simp only [hq, hc, or_self, if_false]
    split_ifs with hg
    · rw [hg]
      rfl
    · rfl

variable (rt) in
theorem fan_spec (net : Network) (tenantId : Bytes) {query : Text} (candidates : List SearchCandidate)
    (hq : Captivo.RecFetch.trim query ≠ []) :
    ∃ fan, searchRecordingsOnConnectors rt net tenantId query candidates = fan ∧ fan.matchedKeys.Nodup ∧
      (fan.isPartial = true ↔ ∃ c ∈ candidates, c.connector = none ∨
        ∃ id, c.connector = some id ∧ outcome rt net tenantId (Captivo.RecFetch.trim query) candidates id = .failed) ∧
      (fan.truncated = true ↔ ∃ c ∈ candidates, ∃ id, c.connector = some id ∧
        ∃ found, outcome rt net tenantId (Captivo.RecFetch.trim query) candidates id = .ok found true) ∧
      (∀ id, id ∈ fan.unreachableConnectors ↔ (∃ c ∈ candidates, c.connector = some id) ∧
        outcome rt net tenantId (Captivo.RecFetch.trim query) candidates id = .failed) ∧
      ∀ key, key ∈ fan.matchedKeys ↔ ∃ c ∈ candidates, ∃ id, c.connector = some id ∧ ∃ found truncated,
        outcome rt net tenantId (Captivo.RecFetch.trim query) candidates id = .ok found truncated ∧
          key ∈ found.map RecSearchMatch.recordingKey := by
  have hm := merged_foldl (answers rt net tenantId (Captivo.RecFetch.trim query) (byConnector candidates).1)
    { noResult with isPartial := (byConnector candidates).2 }
  refine ⟨_, search_eq candidates hq, hm.nodup List.nodup_nil, hm.isPartial.trans ?_, hm.truncated.trans ?_,
    fun id => (hm.unreachable id).trans ?_, fun key => (hm.matched key).trans ?_⟩
  · rw [(byConnector_spec candidates).2.2.2]
    simp only [mem_answers]
    constructor
    · rintro (⟨c, hc, hnone⟩ | ⟨id, ⟨c, hc, hid⟩, hfail⟩)
      · exact ⟨c, hc, Or.inl hnone⟩
      · exact ⟨c, hc, Or.inr ⟨id, hid, hfail⟩⟩
    · rintro ⟨c, hc, hnone | ⟨id, hid, hfail⟩⟩
      · exact Or.inl ⟨c, hc, hnone⟩
      · exact Or.inr ⟨id, ⟨c, hc, hid⟩, hfail⟩
  · simp only [noResult, Bool.false_eq_true, false_or, mem_answers]
    constructor
    · rintro ⟨id, found, ⟨c, hc, hid⟩, ho⟩
      exact ⟨c, hc, id, hid, found, ho⟩
    · rintro ⟨c, hc, id, hid, found, ho⟩
      exact ⟨id, found, ⟨c, hc, hid⟩, ho⟩
  · simp only [noResult, List.not_mem_nil, false_or, mem_answers]
  · simp only [noResult, List.not_mem_nil, false_or, mem_answers]
    constructor
    · rintro ⟨id, found, truncated, ⟨⟨c, hc, hid⟩, ho⟩, hkey⟩
      exact ⟨c, hc, id, hid, found, truncated, ho, hkey⟩
    · rintro ⟨c, hc, id, hid, found, truncated, ho, hkey⟩
      exact ⟨id, found, truncated, ⟨⟨c, hc, hid⟩, ho⟩, hkey⟩

/-! Masked events. -/

/-- Two events that differ at most in the text, and in the text only where they are masked. -/
structure EventsAgree (e e' : KeyEvent) : Prop where
  atMs : e.atMs = e'.atMs
  kind : e.kind = e'.kind
  masked : e.masked = e'.masked
  text : e.masked = false → e.text = e'.text

variable (rt) in
def ChunksAgree (c c' : ℤ × Bytes) : Prop :=
  c.1 = c'.1 ∧ Option.Rel (List.Forall₂ EventsAgree) (rt.unmarshal c.2) (rt.unmarshal c'.2)

variable (rt) in
/-- Two stores whose keystroke streams differ at most in the texts of masked events. -/
def StoresAgree (tenantID : Bytes) (st st' : Store) : Prop :=
  ∀ key, (∃ chunks chunks', st.keys tenantID key = .ok chunks ∧ st'.keys tenantID key = .ok chunks' ∧
      List.Forall₂ (ChunksAgree rt) chunks chunks') ∨
    ∃ e e', st.keys tenantID key = .error e ∧ st'.keys tenantID key = .error e'

theorem searchEvents_agree {evs evs' : List KeyEvent} (h : List.Forall₂ EventsAgree evs evs') (query needle : Text)
    (key : Bytes) (seq : ℤ) : searchEvents rt query needle key seq evs = searchEvents rt query needle key seq evs' := by
  induction h with
  | nil => rfl
  | @cons e e' evs evs' he hevs ih =>
    rw [searchEvents, searchEvents, ← he.masked]
    split_ifs with hmask
    · exact ih
    · rw [← he.text (Bool.not_eq_true _ ▸ hmask), ih]

theorem searchChunks_agree {chunks chunks' : List (ℤ × Bytes)} (h : List.Forall₂ (ChunksAgree rt) chunks chunks')
    (query needle : Text) (key : Bytes) (budget : ℕ) :
    searchChunks rt query needle key budget chunks = searchChunks rt query needle key budget chunks' := by
  induction h generalizing budget with
  | nil => rfl
  | @cons c c' chunks chunks' hc hchunks ih =>
    obtain ⟨seq, data⟩ := c
    obtain ⟨seq', data'⟩ := c'
    obtain ⟨rfl, hevs⟩ := hc
    cases budget with
    | zero => rfl
    | succ budget =>
      rw [searchChunks, searchChunks]
      simp only at hevs
      generalize rt.unmarshal data = r at hevs ⊢
      generalize rt.unmarshal data' = r' at hevs ⊢
      cases hevs with
      | none => exact ih budget
      | some hevs => simp only [searchEvents_agree hevs, ih budget]

theorem searchStore_agree {tenantID : Bytes} {st st' : Store} (h : StoresAgree rt tenantID st st') {req : RecSearchRequest}
    (hreq : req.tenantID = tenantID) : searchStore rt st req = searchStore rt st' req := by
  have hkeys : ∀ (needle : Text) (keys : List Bytes) (budget : ℕ),
      searchKeys rt st req.tenantID req.query needle budget keys = searchKeys rt st' req.tenantID req.query needle budget keys := by
    intro needle keys
    induction keys with
    | nil => exact fun _ => rfl
    | cons key keys ih =>
      intro budget
      cases budget with
      | zero => rfl
      | succ budget =>
        rw [searchKeys, searchKeys]
        rcases h key with ⟨chunks, chunks', hc, hc', hagree⟩ | ⟨e, e', he, he'⟩
        · simp only [hreq, hc, hc', searchChunks_agree hagree]
          simp only [hreq] at ih
          simp only [ih]
        · simp only [hreq, he, he']
          simp only [hreq] at ih
          exact ih _
  simp only [searchStore, hkeys]

theorem search_agree {tenantId : Bytes} {net net' : Network} (hdelivery : net.delivery = net'.delivery)
    (h : ∀ id, StoresAgree rt tenantId (net.store id) (net'.store id)) (query : Text) (candidates : List SearchCandidate) :
    searchRecordingsOnConnectors rt net tenantId query candidates = searchRecordingsOnConnectors rt net' tenantId query candidates := by
  have hone : ∀ q groups, answers rt net tenantId q groups = answers rt net' tenantId q groups := by
    intro q groups
    refine List.map_congr_left fun g _ => ?_
    rw [searchOnConnector, searchOnConnector, hdelivery, searchStore_agree (h g.1) rfl]
  simp only [searchRecordingsOnConnectors, hone]

/-! The result. -/

/-- The query as both trims leave it, the manager's and the connector's. -/
def trimmed (query : Text) : Text := trimSpace (Captivo.RecFetch.trim query)

variable (rt) in
/-- A candidate whose recording, in the store of its connector, has an unmasked event with the query in its text. -/
def Matches (net : Network) (tenantId : Bytes) (query : Text) (c : SearchCandidate) : Prop :=
  trimmed query ≠ [] ∧ ∃ id, c.connector = some id ∧
    StoreHits rt (net.store id) tenantId (rt.uni.toLower (trimmed query)) c.recordingKey

theorem outcome_ok {net : Network} {tenantId : Bytes} {query : Text} {candidates : List SearchCandidate} {id : Text}
    {found : List RecSearchMatch} {truncated : Bool} (hcut : net.delivery id ≠ .cut)
    (h : outcome rt net tenantId query candidates id = .ok found truncated) :
    searchStore rt (net.store id) (requestTo tenantId query (keysAt candidates id)) = some ⟨found, truncated⟩ := by
  rw [outcome, searchOnConnector] at h
  split at h
  · cases h
  · cases h
  · rename_i hd _
    exact absurd hd hcut
  · rename_i resp _ hresp
    rw [hresp]
    cases h
    rfl

theorem mem_keysAt {candidates : List SearchCandidate} {id : Text} {key : Bytes} :
    key ∈ keysAt candidates id ↔ ∃ c ∈ candidates, c.connector = some id ∧ c.recordingKey = key := by
  simp only [keysAt, List.mem_map, List.mem_filter, decide_eq_true_eq, and_assoc]

theorem searchStore_spec {st : Store} {tenantId : Bytes} {query : Text} {keys : List Bytes} {resp : RecSearchResponse}
    (h : searchStore rt st (requestTo tenantId query keys) = some resp) :
    (∀ m ∈ resp.found, trimSpace query ≠ [] ∧ m.recordingKey ∈ keys ∧
        StoreHits rt st tenantId (rt.uni.toLower (trimSpace query)) m.recordingKey) ∧
      (resp.truncated = false → trimSpace query ≠ [] → ∀ key ∈ keys,
        StoreHits rt st tenantId (rt.uni.toLower (trimSpace query)) key → key ∈ resp.found.map RecSearchMatch.recordingKey) := by
  have hnil : rt.uni.toLower (trimSpace query) = [] ↔ trimSpace query = [] := by rw [Unicode.toLower, List.map_eq_nil_iff]
  simp only [searchStore, requestTo, hnil] at h
  by_cases hq : trimSpace query = []
  · rw [if_pos hq, Option.some.injEq] at h
    subst h
    exact ⟨fun m hm => (nomatch hm), fun _ hne => absurd hq hne⟩
  · rw [if_neg hq] at h
    obtain ⟨hsound, hcomplete⟩ := searchKeys_spec h
    exact ⟨fun m hm => ⟨hq, hsound m hm⟩, fun ht _ => hcomplete ht⟩

theorem mem_matchedKeys {net : Network} {tenantId : Bytes} {query : Text} {candidates : List SearchCandidate}
    (hreached : (searchRecordingsOnConnectors rt net tenantId query candidates).isPartial = false)
    (htruncated : (searchRecordingsOnConnectors rt net tenantId query candidates).truncated = false)
    (hcut : ∀ c ∈ candidates, ∀ id, c.connector = some id → net.delivery id ≠ .cut) (key : Bytes) :
    key ∈ (searchRecordingsOnConnectors rt net tenantId query candidates).matchedKeys ↔
      ∃ c ∈ candidates, c.recordingKey = key ∧ Matches rt net tenantId query c := by
  by_cases hq : Captivo.RecFetch.trim query = []
  · have hnone : trimmed query = [] := by
      rw [trimmed, hq]
      rfl
    simp [searchRecordingsOnConnectors, hq, noResult, Matches, hnone]
  obtain ⟨fan, hfan, -, hpart, htrunc, -, hmatched⟩ := fan_spec rt net tenantId candidates hq
  rw [hfan] at hreached htruncated ⊢
  rw [hmatched]
  constructor
  · rintro ⟨c, hc, id, hid, found, truncated, ho, hkey⟩
    obtain ⟨m, hm, rfl⟩ := List.mem_map.1 hkey
    obtain ⟨hne, hmem, hhit⟩ := (searchStore_spec (outcome_ok (hcut c hc id hid) ho)).1 m hm
    obtain ⟨c', hc', hid', hkey'⟩ := mem_keysAt.1 hmem
    exact ⟨c', hc', hkey', hne, id, hid', hkey' ▸ hhit⟩
  · rintro ⟨c, hc, rfl, hne, id, hid, hhit⟩
    cases ho : outcome rt net tenantId (Captivo.RecFetch.trim query) candidates id with
    | failed =>
      rw [hpart.2 ⟨c, hc, Or.inr ⟨id, hid, ho⟩⟩] at hreached
      cases hreached
    | ok found truncated =>
      refine ⟨c, hc, id, hid, found, truncated, ho, ?_⟩
      have hwhole : truncated = false := by
        by_contra htr
        rw [Bool.not_eq_false] at htr
        subst htr
        rw [htrunc.2 ⟨c, hc, id, hid, found, ho⟩] at htruncated
        cases htruncated
      subst hwhole
      exact (searchStore_spec (outcome_ok (hcut c hc id hid) ho)).2 rfl hne _ (mem_keysAt.2 ⟨c, hc, hid, rfl⟩) hhit

/-- One recording with one chunk, in which a command was typed. -/
def typedStore : Store where
  openChunk := some
  root := []
  tree := (append some 0 [] (Lib.FileTree.Tree.empty 0) ⟨[116], [107], ascii "keys"⟩ 0 [1]).1

def typedRuntime : Runtime := ⟨asciiTables, fun _ => some [⟨0, "command".toList, "sudo LS".toList, false⟩]⟩

def typedCandidate : SearchCandidate := ⟨[107], some "c".toList⟩

end Captivo.Search
