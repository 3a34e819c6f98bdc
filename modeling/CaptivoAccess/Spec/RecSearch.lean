import CaptivoAccess.Lib.Group
import CaptivoAccess.Spec.Enrollment
import CaptivoAccess.Spec.ProxyHeaders
import CaptivoAccess.Spec.RecFetch
import CaptivoAccess.Spec.RecStore

/-! Command search over the recordings. Each connector searches the keystrokes in its own
store (`connector/recsearch.go`); the manager asks the connectors that hold the candidates
and puts their answers together (`lib/recording/remote-search.ts`, `searchOnConnector` in
`lib/dataplane/recordings.ts`), for the list of recordings (`lib/recording/query.ts`).
Texts are read as their runes, which is what JSON carries of them. -/

namespace Captivo.Search

open Lib.Utf8 Lib.FileTree Lib.Group Captivo.RecStore Captivo.Proxy
open Captivo.RecFetch (Text)

/-! The connector. -/

structure KeyEvent where
  atMs : ℤ
  kind : Text
  text : Text
  masked : Bool
  deriving DecidableEq

structure RecSearchRequest where
  tenantID : Bytes
  query : Text
  recordingKeys : List Bytes
  maxDecrypt : ℤ

structure RecSearchMatch where
  recordingKey : Bytes
  seq : ℤ
  snippet : Bytes
  deriving DecidableEq

structure RecSearchResponse where
  found : List RecSearchMatch
  truncated : Bool
  deriving DecidableEq

structure Store where
  openChunk : Bytes → Option Bytes
  root : Path
  tree : Tree

def Store.keys (st : Store) (tenantID key : Bytes) : Except StoreError (List (ℤ × Bytes)) :=
  read st.openChunk st.root st.tree ⟨tenantID, key, ascii "keys"⟩ 0

/-- What the libraries do: Unicode tables, and `json.Unmarshal` into a list of events. -/
structure Runtime where
  uni : Unicode
  unmarshal : Bytes → Option (List KeyEvent)

/-- Where `needle` first occurs, in runes. -/
def indexOf (needle : Text) : Text → Option ℕ
  | [] => if needle = [] then some 0 else none
  | c :: t => if needle.isPrefixOf (c :: t) then some 0 else (indexOf needle t).map (· + 1)

def dropInvalid : ℕ → Bytes → Bytes
  | 0, _ => []
  | n + 1, bs =>
    match decodeRune bs with
    | none => []
    | some (c, r) =>
      if c = runeError ∧ bs.length = r.length + 1 then dropInvalid n r
      else bs.take (bs.length - r.length) ++ dropInvalid n r

def toValidUTF8 (bs : Bytes) : Bytes := dropInvalid bs.length bs

def snippetRadius : ℕ := 40

/-- `snippetAround`. The index was found in the text in lower case, which can be longer than the text
itself: the slice may then begin behind its end, and the program panics. -/
def snippetAround (s : Bytes) (index matchLen : ℕ) : Option Bytes :=
  let start := index - snippetRadius
  let stop := min (index + matchLen + snippetRadius) s.length
  if start ≤ stop then some (toValidUTF8 ((s.drop start).take (stop - start))) else none

variable (rt : Runtime)

/-- The events of one chunk. The outer `none` is a panic. -/
def searchEvents (query needle : Text) (key : Bytes) (seq : ℤ) : List KeyEvent → Option (Option RecSearchMatch)
  | [] => some none
  | e :: evs =>
    if e.masked then searchEvents query needle key seq evs
    else match indexOf needle (rt.uni.toLower e.text) with
      | none => searchEvents query needle key seq evs
      | some i =>
        (snippetAround (encodeText e.text) (encodeText ((rt.uni.toLower e.text).take i)).length (encodeText query).length).map
          fun snippet => some ⟨key, seq, snippet⟩

structure Scan where
  hit : Option RecSearchMatch
  budget : ℕ
  truncated : Bool

def searchChunks (query needle : Text) (key : Bytes) : ℕ → List (ℤ × Bytes) → Option Scan
  | budget, [] => some ⟨none, budget, false⟩
  | 0, _ :: _ => some ⟨none, 0, true⟩
  | budget + 1, (seq, data) :: chunks =>
    match rt.unmarshal data with
    | none => searchChunks query needle key budget chunks
    | some evs =>
      match searchEvents rt query needle key seq evs with
      | none => none
      | some (some m) => some ⟨some m, budget, false⟩
      | some none => searchChunks query needle key budget chunks

def searchKeys (st : Store) (tenantID : Bytes) (query needle : Text) : ℕ → List Bytes → Option RecSearchResponse
  | _, [] => some ⟨[], false⟩
  | 0, _ :: _ => some ⟨[], true⟩
  | budget + 1, key :: keys =>
    match st.keys tenantID key with
    | .error _ => searchKeys st tenantID query needle (budget + 1) keys
    | .ok chunks =>
      match searchChunks rt query needle key (budget + 1) chunks with
      | none => none
      | some scan =>
        (searchKeys st tenantID query needle scan.budget keys).map fun rest =>
          ⟨scan.hit.toList ++ rest.found, scan.truncated || rest.truncated⟩

def searchStore (st : Store) (req : RecSearchRequest) : Option RecSearchResponse :=
  let needle := rt.uni.toLower (trimSpace req.query)
  if needle = [] then some ⟨[], false⟩
  else searchKeys rt st req.tenantID req.query needle (if req.maxDecrypt ≤ 0 then 500 else req.maxDecrypt.toNat) req.recordingKeys

/-! The manager. -/

def COMMAND_SCAN_CAP_PER_CONNECTOR : ℤ := 50000

/-- What becomes of the request to a connector: there is no answer or one that is no success; there is
a success whose body cannot be read to its end; or it is read. -/
inductive Delivery where
  | failed
  | cut
  | delivered
  deriving DecidableEq

inductive RecSearchResult where
  | failed
  | ok (found : List RecSearchMatch) (truncated : Bool)
  deriving DecidableEq

/-- The connectors by id, with their stores and what becomes of a request to them. -/
structure Network where
  store : Text → Store
  delivery : Text → Delivery

/-- `searchOnConnector`. A panic takes the connector down, so its answer is missing; a body that cannot be
read stands for `{}`. -/
def searchOnConnector (net : Network) (connectorId : Text) (req : RecSearchRequest) : RecSearchResult :=
  match net.delivery connectorId, searchStore rt (net.store connectorId) req with
  | .failed, _ => .failed
  | _, none => .failed
  | .cut, some _ => .ok [] false
  | .delivered, some resp => .ok resp.found resp.truncated

structure SearchCandidate where
  recordingKey : Bytes
  connectorId : Option Text
  deriving DecidableEq

def SearchCandidate.connector (c : SearchCandidate) : Option Text := c.connectorId.filter (· ≠ [])

structure FanOutResult where
  matchedKeys : List Bytes
  snippets : List (Bytes × Bytes)
  truncated : Bool
  isPartial : Bool
  unreachableConnectors : List Text
  deriving DecidableEq

def noResult : FanOutResult := ⟨[], [], false, false, []⟩

/-- The recordings by connector, and whether one had none. -/
def byConnector (candidates : List SearchCandidate) : Groups Text Bytes × Bool :=
  candidates.foldl (fun acc c =>
    match c.connector with
    | none => (acc.1, true)
    | some id => (push id c.recordingKey acc.1, acc.2)) ([], false)

/-- `if (!snippets[key]) snippets[key] = snippet`. -/
def addSnippet (snippets : List (Bytes × Bytes)) (key snippet : Bytes) : List (Bytes × Bytes) :=
  match snippets.find? (·.1 = key) with
  | none => snippets ++ [(key, snippet)]
  | some (_, old) => if old = [] then snippets.map fun s => if s.1 = key then (key, snippet) else s else snippets

def addMatch (acc : FanOutResult) (m : RecSearchMatch) : FanOutResult :=
  { acc with
    matchedKeys := if m.recordingKey ∈ acc.matchedKeys then acc.matchedKeys else acc.matchedKeys ++ [m.recordingKey]
    snippets := addSnippet acc.snippets m.recordingKey m.snippet }

def merge (acc : FanOutResult) : Text × RecSearchResult → FanOutResult
  | (connectorId, .failed) =>
    { acc with unreachableConnectors := acc.unreachableConnectors ++ [connectorId], isPartial := true }
  | (_, .ok found truncated) => found.foldl addMatch { acc with truncated := acc.truncated || truncated }

def requestTo (tenantId : Bytes) (query : Text) (recordingKeys : List Bytes) : RecSearchRequest :=
  ⟨tenantId, query, recordingKeys, COMMAND_SCAN_CAP_PER_CONNECTOR⟩

/-- The answers, in the order the connectors were asked whatever order they come in. -/
def answers (net : Network) (tenantId : Bytes) (query : Text) (groups : Groups Text Bytes) : List (Text × RecSearchResult) :=
  groups.map fun g => (g.1, searchOnConnector rt net g.1 (requestTo tenantId query g.2))

def searchRecordingsOnConnectors (net : Network) (tenantId : Bytes) (query : Text) (candidates : List SearchCandidate) :
    FanOutResult :=
  let query := Captivo.RecFetch.trim query
  if query = [] ∨ candidates = [] then noResult
  else
    let grouped := byConnector candidates
    if grouped.1 = [] then { noResult with isPartial := grouped.2 }
    else (answers rt net tenantId query grouped.1).foldl merge { noResult with isPartial := grouped.2 }

/-! The list of recordings. -/

/-- A row of `SessionRecording`, with the columns that are filtered on and selected. -/
structure RecordingRow where
  id : Text
  recordingKey : Bytes
  siteId : Text
  userId : Text
  host : Text
  startedAt : ℤ
  lastEventAt : ℤ
  eventCount : ℤ
  bytes : ℤ
  format : Text
  protocol : Option Text
  truncated : Bool
  deriving DecidableEq

structure RecordingFilter where
  q : Option Text
  cmd : Option Text
  userId : Option Text
  siteId : Option Text
  start : Option ℤ
  stop : Option ℤ
  limit : ℕ
  offset : ℕ

/-- `buildRecordingWhere`, with the database's `contains` that ignores case. -/
def buildRecordingWhere (contains : Text → Text → Bool) (filter : RecordingFilter) (r : RecordingRow) : Bool :=
  (filter.userId.filter (· ≠ [])).all (· = r.userId) && (filter.siteId.filter (· ≠ [])).all (· = r.siteId) &&
    filter.start.all (· ≤ r.startedAt) && filter.stop.all (r.startedAt ≤ ·) &&
    ((filter.q.map Captivo.RecFetch.trim).filter fun q => 2 ≤ Captivo.Enroll.jsLength q).all (contains r.host)

structure RecordingList where
  rows : List RecordingRow
  total : ℕ
  tooBroad : Option Bool
  isPartial : Option Bool
  unreachableConnectors : Option (List Text)

/-- What the statements of one call find: the candidates, the sites with their connectors, and the recordings
once more for the page. -/
structure Found where
  candidates : List RecordingRow
  sites : List (Text × Option Text)
  listed : List RecordingRow

/-- The connector of a site: the last row of a `Map` wins, and a site that was not found has none. -/
def connectorBySite (sites : List (Text × Option Text)) (siteId : Text) : Option Text :=
  ((sites.reverse.find? (·.1 = siteId)).map Prod.snd).join

/-- The page of the rows that are kept, the youngest first, and their number. -/
def page (rows : List RecordingRow) (keep : RecordingRow → Bool) (filter : RecordingFilter) : RecordingList :=
  let kept := (rows.filter keep).insertionSort fun r r' => r'.startedAt ≤ r.startedAt
  ⟨(kept.drop filter.offset).take filter.limit, kept.length, none, none, none⟩

def candidatesOf (rows : List RecordingRow) (sites : List (Text × Option Text)) : List SearchCandidate :=
  rows.map fun r => ⟨r.recordingKey, connectorBySite sites r.siteId⟩

def RecordingFilter.command (filter : RecordingFilter) : Option Text :=
  (filter.cmd.map Captivo.RecFetch.trim).filter fun cmd => 2 ≤ Captivo.Enroll.jsLength cmd

def listRecordings (contains : Text → Text → Bool) (net : Network) (tenantId : Bytes) (found : Found) (filter : RecordingFilter) :
    RecordingList :=
  let baseWhere := buildRecordingWhere contains filter
  match filter.command with
  | none => page found.listed baseWhere filter
  | some cmd =>
    let candidates := found.candidates.filter baseWhere
    if candidates = [] then ⟨[], 0, none, none, none⟩
    else
      let fan := searchRecordingsOnConnectors rt net tenantId cmd (candidatesOf candidates found.sites)
      if fan.truncated && fan.matchedKeys = [] then ⟨[], 0, some true, none, none⟩
      else if fan.matchedKeys = [] then ⟨[], 0, none, some fan.isPartial, some fan.unreachableConnectors⟩
      else page found.listed (fun r => baseWhere r && r.recordingKey ∈ fan.matchedKeys) filter

end Captivo.Search
