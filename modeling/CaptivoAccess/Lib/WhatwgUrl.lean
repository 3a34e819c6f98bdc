import CaptivoAccess.Lib.HttpHead
import CaptivoAccess.Lib.IpText

/-! URLs as the URL Standard parses and serializes them, for the special schemes other
than `file`: backslashes are slashes, tabs and newlines do not count, and a text without a
scheme is resolved against a base. How a host is parsed stays a parameter, with the laws the
Standard gives it. -/

namespace Lib.WhatwgUrl

open Lib.Dns (Text)
open Lib.HttpHead (trim)
open Lib.IpText (cutLast)

/-! Characters. -/

def isTabOrNewline (c : Char) : Bool := c = '\t' || c = '\n' || c = '\r'

def isC0OrSpace (c : Char) : Bool := c.toNat ≤ 0x20

def isSlash (c : Char) : Bool := c = '/' || c = '\\'

def c0ControlSet (c : Char) : Bool := c.toNat < 0x20 || 0x7e < c.toNat

def fragmentSet (c : Char) : Bool := c0ControlSet c || c ∈ [' ', '\x22', '<', '>', '\x60']

def querySet (c : Char) : Bool := c0ControlSet c || c ∈ [' ', '\x22', '#', '<', '>']

def specialQuerySet (c : Char) : Bool := querySet c || c = '\x27'

def pathSet (c : Char) : Bool := querySet c || c ∈ ['?', '^', '\x60', '\x7b', '\x7d']

def userinfoSet (c : Char) : Bool := pathSet c || c ∈ ['/', ':', ';', '=', '@', '[', '\\', ']', '|']

def hexDigits : Text := "0123456789ABCDEF".toList

/-- A byte as a percent sign and two digits. -/
def percentByte (b : UInt8) : Text :=
  ['%', hexDigits.getD (b.toNat / 16) '0', hexDigits.getD (b.toNat % 16) '0']

/-- The text with the characters of the set written as the bytes of their UTF-8 form. -/
def percentEncode (set : Char → Bool) (t : Text) : Text :=
  t.flatMap fun c => if set c then (String.utf8EncodeChar c).flatMap percentByte else [c]

/-! Records. -/

/-- The special schemes, `file` aside. -/
inductive Scheme where
  | ftp
  | http
  | https
  | ws
  | wss
  deriving DecidableEq, Repr

def Scheme.text : Scheme → Text
  | .ftp => ['f', 't', 'p']
  | .http => ['h', 't', 't', 'p']
  | .https => ['h', 't', 't', 'p', 's']
  | .ws => ['w', 's']
  | .wss => ['w', 's', 's']

def Scheme.defaultPort : Scheme → ℕ
  | .ftp => 21
  | .http => 80
  | .https => 443
  | .ws => 80
  | .wss => 443

def Scheme.ofText (t : Text) : Option Scheme :=
  [Scheme.ftp, .http, .https, .ws, .wss].find? (·.text = t)

structure Url where
  scheme : Scheme
  username : Text
  password : Text
  host : Text
  port : Option ℕ
  path : List Text
  query : Option Text
  fragment : Option Text
  deriving DecidableEq, Repr

def Url.origin (u : Url) : Scheme × Text × Option ℕ := (u.scheme, u.host, u.port)

/-- What parsing gives. A URL of another scheme is not taken apart. -/
inductive Parsed where
  | failure
  | special (u : Url)
  | other (scheme : Text)
  deriving DecidableEq, Repr

/-- Follows a host through its brackets: whether it ends inside them, none where a colon stands outside. -/
def bracketsAt : Bool → Text → Option Bool
  | inside, [] => some inside
  | inside, c :: t =>
    if c = ':' && !inside then none
    else bracketsAt (if c = '[' then true else if c = ']' then false else inside) t

/-- Of the code points that stand in no serialized host, the ones that do not depend on its kind. -/
def hostForbidden (c : Char) : Bool := c.toNat ≤ 0x20 || 0x7f ≤ c.toNat || c ∈ "#/<>?@\\^|%".toList

/-- The host parser of special URLs, with its result serialized. -/
structure HostParser where
  parse : Text → Option Text
  nonempty : ∀ {t h}, parse t = some h → h ≠ []
  clean : ∀ {t h}, parse t = some h → ∀ c ∈ h, hostForbidden c = false
  bracketed : ∀ {t h}, parse t = some h → bracketsAt false h = some false
  again : ∀ {t h}, parse t = some h → parse h = some h

/-! The states of the parser, each as the function of the text in front of it. -/

def isDot (s : Text) : Bool := s.map Char.toLower ∈ [".".toList, "%2e".toList]

def isDoubleDot (s : Text) : Bool :=
  s.map Char.toLower ∈ ["..".toList, ".%2e".toList, "%2e.".toList, "%2e%2e".toList]

/-- The path after the segments that are still to come. A dot segment at the end leaves an empty one. -/
def readPath (path : List Text) : List Text → List Text
  | [] => path
  | [s] => if isDoubleDot s then path.dropLast ++ [[]] else if isDot s then path ++ [[]] else path ++ [s]
  | s :: rest => readPath (if isDoubleDot s then path.dropLast else if isDot s then path else path ++ [s]) rest

def readQuery : Text → Option Text
  | c :: t => if c = '?' then some (percentEncode specialQuerySet (t.takeWhile (· ≠ '#'))) else none
  | [] => none

def readFragment (t : Text) : Option Text :=
  (t.dropWhile (· ≠ '#')).head?.map fun _ => percentEncode fragmentSet (t.dropWhile (· ≠ '#')).tail

def endsPath (c : Char) : Bool := c = '?' || c = '#'

/-- Path, query and fragment read off a text, the path below the given one. -/
def Url.readRest (u : Url) (path : List Text) (t : Text) : Url :=
  let segments := (t.takeWhile (!endsPath ·)).splitOnP isSlash
  let after := t.dropWhile (!endsPath ·)
  { u with
    path := readPath path (segments.map (percentEncode pathSet))
    query := readQuery after
    fragment := readFragment after }

def dropSlash : Text → Text
  | c :: t => if isSlash c then t else c :: t
  | [] => []

/-- The host and what follows it, a colon outside brackets with it. -/
def splitPort : Bool → Text → Text × Text
  | _, [] => ([], [])
  | inside, c :: t =>
    if c = ':' && !inside then ([], c :: t)
    else
      let rest := splitPort (if c = '[' then true else if c = ']' then false else inside) t
      (c :: rest.1, rest.2)

/-- The port after its colon; the default of the scheme is none. -/
def readPort (scheme : Scheme) : Text → Option (Option ℕ)
  | [] => some none
  | _ :: digits =>
    if !digits.all Char.isDigit then none
    else if digits = [] then some none
    else
      let n := Nat.ofDigitChars 10 digits 0
      if 65535 < n then none else some (if n = scheme.defaultPort then none else some n)

def endsAuthority (c : Char) : Bool := isSlash c || endsPath c

variable (hosts : HostParser)

def readAuthority (scheme : Scheme) (t : Text) : Option Url :=
  let authority := t.takeWhile (!endsAuthority ·)
  -- everything up to the last sign belongs to the user
  let (credentials, hostPort) := (cutLast '@' authority).getD ([], authority)
  let (host, port) := splitPort false hostPort
  if host = [] then none
  else (hosts.parse host).bind fun host => (readPort scheme port).map fun port =>
    let u : Url := {
      scheme
      username := percentEncode userinfoSet (credentials.takeWhile (· ≠ ':'))
      password := percentEncode userinfoSet (credentials.dropWhile (· ≠ ':')).tail
      host
      port
      path := []
      query := none
      fragment := none }
    u.readRest [] (dropSlash (t.dropWhile (!endsAuthority ·)))

/-- Special authority slashes and special authority ignore slashes. -/
def afterSlashes (scheme : Scheme) (t : Text) : Parsed :=
  match readAuthority hosts scheme (t.dropWhile isSlash) with
  | some u => .special u
  | none => .failure

def relative (base : Url) : Text → Parsed
  | [] => .special { base with fragment := none }
  | c :: t =>
    if isSlash c then
      if t.head?.any isSlash then afterSlashes hosts base.scheme t
      else .special (base.readRest [] t)
    else if c = '?' then .special { base with query := readQuery (c :: t), fragment := readFragment (c :: t) }
    else if c = '#' then .special { base with fragment := readFragment (c :: t) }
    else .special (base.readRest base.path.dropLast (c :: t))

def isSchemeChar (c : Char) : Bool := c.isAlphanum || c = '+' || c = '-' || c = '.'

/-- The scheme a text begins with, and what follows its colon. -/
def splitScheme (t : Text) : Option (Text × Text) :=
  match t.dropWhile isSchemeChar with
  | c :: rest =>
    if c = ':' && (t.takeWhile isSchemeChar).head?.any Char.isAlpha then
      some ((t.takeWhile isSchemeChar).map Char.toLower, rest)
    else none
  | [] => none

def preprocess (t : Text) : Text := (trim isC0OrSpace t).filter (!isTabOrNewline ·)

/-- The basic URL parser. -/
def parse (base : Option Url) (input : Text) : Parsed :=
  let t := preprocess input
  match splitScheme t with
  | some (name, rest) =>
    match Scheme.ofText name with
    | none => .other name
    | some scheme =>
      match base with
      | some b =>
        if b.scheme = scheme && !"//".toList.isPrefixOf rest then relative hosts b rest
        else afterSlashes hosts scheme rest
      | none => afterSlashes hosts scheme rest
  | none =>
    match base with
    | some b => relative hosts b t
    | none => .failure

/-! The serializer. -/

def Url.credentials (u : Url) : Text :=
  if u.username = [] ∧ u.password = [] then []
  else u.username ++ (if u.password = [] then [] else ':' :: u.password) ++ ['@']

def Url.portText (u : Url) : Text :=
  match u.port with
  | none => []
  | some n => ':' :: Nat.toDigits 10 n

/-- The host with its port, what the API calls `host`. -/
def Url.hostString (u : Url) : Text := u.host ++ u.portText

def Url.restText (u : Url) : Text :=
  u.path.flatMap ('/' :: ·) ++ (u.query.elim [] ('?' :: ·)) ++ u.fragment.elim [] ('#' :: ·)

def Url.serialize (u : Url) : Text :=
  u.scheme.text ++ "://".toList ++ (u.credentials ++ u.hostString) ++ u.restText

/-- The text begins with two slashes of either kind, tabs and newlines aside. -/
def namesAuthority (t : Text) : Bool :=
  match t.filter (!isTabOrNewline ·) with
  | c :: d :: _ => isSlash c && isSlash d
  | _ => false

/-! What stands in a serialized URL. -/

theorem mem_hexDigits (n : ℕ) : hexDigits.getD n '0' ∈ hexDigits := by
  rw [List.getD_eq_getElem?_getD]
  cases h : hexDigits[n]? with
  | none => decide
  | some c => exact List.mem_of_getElem? h

variable {c : Char} {t : Text}

/-- Encoding leaves nothing of the set, provided it is not in what encoding writes. -/
theorem set_of_mem_percentEncode {set : Char → Bool} (hset : ∀ c ∈ '%' :: hexDigits, set c = false)
    (h : c ∈ percentEncode set t) : set c = false := by
  obtain ⟨d, -, hd⟩ := List.mem_flatMap.1 h
  split at hd
  · obtain ⟨b, -, hb⟩ := List.mem_flatMap.1 hd
    refine hset c ?_
    simp only [percentByte, List.mem_cons, List.not_mem_nil, or_false] at hb
    obtain rfl | rfl | rfl := hb
    · exact List.mem_cons_self
    · exact List.mem_cons_of_mem _ (mem_hexDigits _)
    · exact List.mem_cons_of_mem _ (mem_hexDigits _)
  · next hnot =>
    rw [List.mem_singleton.1 hd]
    exact Bool.of_not_eq_true hnot

theorem mem_readPath {path segments : List Text} {s : Text} (h : s ∈ readPath path segments) :
    s = [] ∨ s ∈ path ∨ s ∈ segments := by
  induction segments generalizing path with
  | nil => exact Or.inr (Or.inl h)
  | cons t rest ih =>
    cases rest with
    | nil =>
      rw [readPath] at h
      split_ifs at h
      · obtain hs | hs := List.mem_append.1 h
        · exact Or.inr (Or.inl (List.mem_of_mem_dropLast hs))
        · exact Or.inl (List.mem_singleton.1 hs)
      · obtain hs | hs := List.mem_append.1 h
        · exact Or.inr (Or.inl hs)
        · exact Or.inl (List.mem_singleton.1 hs)
      · obtain hs | hs := List.mem_append.1 h
        · exact Or.inr (Or.inl hs)
        · exact Or.inr (Or.inr hs)
    | cons t' rest =>
      rw [readPath] at h
      · obtain hs | hs | hs := ih h
        · exact Or.inl hs
        · split_ifs at hs
          · exact Or.inr (Or.inl (List.mem_of_mem_dropLast hs))
          · exact Or.inr (Or.inl hs)
          · obtain hs | hs := List.mem_append.1 hs
            · exact Or.inr (Or.inl hs)
            · exact Or.inr (Or.inr (by simp_all))
        · exact Or.inr (Or.inr (List.mem_cons_of_mem _ hs))
      · simp

theorem readPath_ne_nil {path segments : List Text} (h : segments ≠ []) : readPath path segments ≠ [] := by
  induction segments generalizing path with
  | nil => exact absurd rfl h
  | cons t rest ih =>
    cases rest with
    | nil =>
      rw [readPath]
      split_ifs <;> simp
    | cons t' rest =>
      rw [readPath]
      · exact ih (by simp)
      · simp

theorem isC0OrSpace_eq_false (hc0 : c0ControlSet c = false) (hspace : c ≠ ' ') : isC0OrSpace c = false := by
  have hne : c.toNat ≠ 0x20 := fun h => hspace (Char.toNat_inj.1 h)
  simp only [c0ControlSet, Bool.or_eq_false_iff, decide_eq_false_iff_not] at hc0
  simp only [isC0OrSpace, decide_eq_false_iff_not]
  omega

theorem isC0OrSpace_of_querySet (h : querySet c = false) : isC0OrSpace c = false := by
  simp only [querySet, Bool.or_eq_false_iff, decide_eq_false_iff_not, List.mem_cons, not_or] at h
  exact isC0OrSpace_eq_false h.1 h.2.1

theorem isC0OrSpace_of_pathSet (h : pathSet c = false) : isC0OrSpace c = false :=
  isC0OrSpace_of_querySet (Bool.or_eq_false_iff.1 h).1

theorem isC0OrSpace_of_fragmentSet (h : fragmentSet c = false) : isC0OrSpace c = false := by
  simp only [fragmentSet, Bool.or_eq_false_iff, decide_eq_false_iff_not, List.mem_cons, not_or] at h
  exact isC0OrSpace_eq_false h.1 h.2.1

theorem isC0OrSpace_readQuery {t q : Text} (h : readQuery t = some q) : ∀ c ∈ q, isC0OrSpace c = false := by
  intro c hc
  cases t with
  | nil => cases h
  | cons d t =>
    rw [readQuery] at h
    split_ifs at h
    cases h
    exact isC0OrSpace_of_querySet (Bool.or_eq_false_iff.1 (set_of_mem_percentEncode (List.forall_iff_forall_mem.1 (by decide)) hc)).1

theorem isC0OrSpace_readFragment {t f : Text} (h : readFragment t = some f) : ∀ c ∈ f, isC0OrSpace c = false := by
  intro c hc
  obtain ⟨-, -, rfl⟩ := Option.map_eq_some_iff.1 h
  exact isC0OrSpace_of_fragmentSet (set_of_mem_percentEncode (List.forall_iff_forall_mem.1 (by decide)) hc)

theorem isC0OrSpace_readPath {segments : List Text} {s : Text}
    (h : s ∈ readPath [] (segments.map (percentEncode pathSet))) : ∀ c ∈ s, isC0OrSpace c = false := by
  intro c hc
  obtain rfl | hs | hs := mem_readPath h
  · exact absurd hc List.not_mem_nil
  · exact absurd hs List.not_mem_nil
  · obtain ⟨t, -, rfl⟩ := List.mem_map.1 hs
    exact isC0OrSpace_of_pathSet (set_of_mem_percentEncode (List.forall_iff_forall_mem.1 (by decide)) hc)

theorem Url.isC0OrSpace_restText_readRest (u : Url) (t : Text) :
    ∀ c ∈ (u.readRest [] t).restText, isC0OrSpace c = false := by
  intro c hc
  simp only [restText, readRest, List.mem_append, List.mem_flatMap, List.mem_cons] at hc
  obtain (⟨s, hs, rfl | hc⟩ | hc) | hc := hc
  · rfl
  · exact isC0OrSpace_readPath hs c hc
  · cases hq : readQuery (t.dropWhile (!endsPath ·)) with
    | none => simp [hq] at hc
    | some q =>
      rw [hq, Option.elim_some, List.mem_cons] at hc
      obtain rfl | hc := hc
      · rfl
      · exact isC0OrSpace_readQuery hq c hc
  · cases hf : readFragment (t.dropWhile (!endsPath ·)) with
    | none => simp [hf] at hc
    | some f =>
      rw [hf, Option.elim_some, List.mem_cons] at hc
      obtain rfl | hc := hc
      · rfl
      · exact isC0OrSpace_readFragment hf c hc

/-- What the parser makes: its parts are encoded, the host is one the host parser gives, and the port is not the default. -/
structure Url.WellFormed (u : Url) : Prop where
  username : ∀ c ∈ u.username, userinfoSet c = false
  password : ∀ c ∈ u.password, userinfoSet c = false
  host : hosts.parse u.host = some u.host
  port : ∀ n ∈ u.port, n ≤ 65535 ∧ n ≠ u.scheme.defaultPort
  path : u.path ≠ []
  rest : ∀ c ∈ u.restText, isC0OrSpace c = false

theorem readPort_le {scheme : Scheme} {port : Option ℕ} (h : readPort scheme t = some port) :
    ∀ n ∈ port, n ≤ 65535 ∧ n ≠ scheme.defaultPort := by
  intro n hn
  obtain rfl := hn
  cases t with
  | nil => simp [readPort] at h
  | cons c digits =>
    simp only [readPort] at h
    split_ifs at h with hdigits hempty hmax hdefault
    · cases h
    · cases h
    · cases h
      exact ⟨by omega, hdefault⟩

variable {hosts}

variable {u : Url}

theorem readAuthority_wellFormed {scheme : Scheme} (h : readAuthority hosts scheme t = some u) :
    u.WellFormed hosts := by
  simp only [readAuthority] at h
  split_ifs at h
  obtain ⟨host, hhost, h⟩ := Option.bind_eq_some_iff.1 h
  obtain ⟨port, hport, rfl⟩ := Option.map_eq_some_iff.1 h
  exact {
    username := fun c hc => set_of_mem_percentEncode (List.forall_iff_forall_mem.1 (by decide)) hc
    password := fun c hc => set_of_mem_percentEncode (List.forall_iff_forall_mem.1 (by decide)) hc
    host := hosts.again hhost
    port := readPort_le hport
    path := readPath_ne_nil (by simp [List.splitOnP_ne_nil])
    rest := Url.isC0OrSpace_restText_readRest _ _ }

theorem afterSlashes_wellFormed {scheme : Scheme} (h : afterSlashes hosts scheme t = .special u) :
    u.WellFormed hosts := by
  rw [afterSlashes] at h
  split at h
  · next v hv =>
    cases h
    exact readAuthority_wellFormed hv
  · cases h

theorem parse_wellFormed (h : parse hosts none t = .special u) : u.WellFormed hosts := by
  simp only [parse] at h
  split at h
  · split at h
    · cases h
    · exact afterSlashes_wellFormed h
  · cases h

/-! A serialized URL is read back with its origin, whatever the base. -/

theorem splitPort_append {inside inside' : Bool} {h : Text} (t : Text) (hh : bracketsAt inside h = some inside') :
    splitPort inside (h ++ t) = (h ++ (splitPort inside' t).1, (splitPort inside' t).2) := by
  induction h generalizing inside with
  | nil =>
    cases hh
    rfl
  | cons c h ih =>
    by_cases hcolon : (c = ':' && !inside) = true
    · rw [bracketsAt, if_pos hcolon] at hh
      cases hh
    · rw [bracketsAt, if_neg hcolon] at hh
      simp only [List.cons_append, splitPort, if_neg hcolon, ih hh]

theorem splitPort_portText (u : Url) : splitPort false u.portText = ([], u.portText) := by
  rw [Url.portText]
  split
  · rfl
  · rfl

theorem readPort_portText (hu : u.WellFormed hosts) : readPort u.scheme u.portText = some u.port := by
  rw [Url.portText]
  split
  · next hport => rw [hport, readPort]
  · next n hport =>
    obtain ⟨hmax, hdefault⟩ := hu.port n hport
    have hdigits : (Nat.toDigits 10 n).all Char.isDigit = true :=
      List.all_eq_true.2 fun c hc => Nat.isDigit_of_mem_toDigits (by omega) (by omega) hc
    rw [readPort, hdigits, Nat.ofDigitChars_toDigits (by omega) (by omega), hport]
    simp [Nat.toDigits_ne_nil, hdefault, Nat.not_lt.2 hmax]

/-- What ends neither an authority nor the user in front of it. -/
def Plain (c : Char) : Prop := isC0OrSpace c = false ∧ c ∉ ['/', '\\', '?', '#', '@']

instance (c : Char) : Decidable (Plain c) := inferInstanceAs (Decidable (_ ∧ _))

theorem Plain.endsAuthority (h : Plain c) : endsAuthority c = false := by
  have hmem := h.2
  simp only [List.mem_cons, not_or] at hmem
  simp [WhatwgUrl.endsAuthority, isSlash, endsPath, hmem]

theorem plain_of_userinfoSet (h : userinfoSet c = false) : Plain c := by
  obtain ⟨hpath, huser⟩ := Bool.or_eq_false_iff.1 h
  obtain ⟨hquery, hother⟩ := Bool.or_eq_false_iff.1 hpath
  refine ⟨isC0OrSpace_of_pathSet hpath, fun hc => ?_⟩
  simp only [querySet, Bool.or_eq_false_iff, decide_eq_false_iff_not, List.mem_cons, not_or] at hquery hother huser hc
  tauto

theorem plain_of_hostForbidden (h : hostForbidden c = false) : Plain c := by
  simp only [hostForbidden, Bool.or_eq_false_iff, decide_eq_false_iff_not] at h
  have hsub : ['/', '\\', '?', '#', '@'] ⊆ "#/<>?@\\^|%".toList := by decide
  exact ⟨decide_eq_false h.1.1, fun hc => h.2 (hsub hc)⟩

theorem plain_of_isDigit (h : c.isDigit = true) : Plain c := by
  refine ⟨?_, fun hc => ?_⟩
  · have hle : 48 ≤ c.toNat := by
      simp only [Char.isDigit, Bool.and_eq_true, decide_eq_true_eq] at h
      exact UInt32.le_iff_toNat_le.1 h.1
    simp only [isC0OrSpace, decide_eq_false_iff_not]
    omega
  · simp only [List.mem_cons, List.not_mem_nil, or_false] at hc
    obtain rfl | rfl | rfl | rfl | rfl := hc <;> cases h

theorem Url.WellFormed.plain_hostString (hu : u.WellFormed hosts) : ∀ c ∈ u.hostString, Plain c := by
  intro c hc
  obtain hc | hc := List.mem_append.1 hc
  · exact plain_of_hostForbidden (hosts.clean hu.host c hc)
  · rw [portText] at hc
    split at hc
    · exact absurd hc List.not_mem_nil
    · obtain rfl | hc := List.mem_cons.1 hc
      · decide
      · exact plain_of_isDigit (Nat.isDigit_of_mem_toDigits (by omega) (by omega) hc)

theorem Url.WellFormed.credentials_cases (hu : u.WellFormed hosts) :
    u.credentials = [] ∨ ∃ user, u.credentials = user ++ ['@'] ∧ ∀ c ∈ user, Plain c := by
  rw [credentials]
  split_ifs with hnone hpassword
  · exact Or.inl rfl
  · refine Or.inr ⟨u.username, by rw [List.append_nil], fun c hc => ?_⟩
    exact plain_of_userinfoSet (hu.username c hc)
  · refine Or.inr ⟨u.username ++ ':' :: u.password, rfl, fun c hc => ?_⟩
    obtain hc | hc := List.mem_append.1 hc
    · exact plain_of_userinfoSet (hu.username c hc)
    · obtain rfl | hc := List.mem_cons.1 hc
      · decide
      · exact plain_of_userinfoSet (hu.password c hc)

theorem Url.WellFormed.mem_authority (hu : u.WellFormed hosts) :
    ∀ c ∈ u.credentials ++ u.hostString, endsAuthority c = false ∧ isC0OrSpace c = false := by
  have hplain : ∀ c, Plain c → endsAuthority c = false ∧ isC0OrSpace c = false := fun c hc => ⟨hc.endsAuthority, hc.1⟩
  intro c hc
  obtain hc | hc := List.mem_append.1 hc
  · obtain hnone | ⟨user, huser, hplainUser⟩ := hu.credentials_cases
    · rw [hnone] at hc
      exact absurd hc List.not_mem_nil
    · rw [huser] at hc
      obtain hc | hc := List.mem_append.1 hc
      · exact hplain c (hplainUser c hc)
      · rw [List.mem_singleton.1 hc]
        decide
  · exact hplain c (hu.plain_hostString c hc)

theorem Url.WellFormed.cutLast_authority (hu : u.WellFormed hosts) :
    ∃ user, (cutLast '@' (u.credentials ++ u.hostString)).getD ([], u.credentials ++ u.hostString) = (user, u.hostString) := by
  have hsign : '@' ∉ u.hostString := fun h => absurd (hu.plain_hostString '@' h) (by decide)
  obtain hnone | ⟨user, huser, -⟩ := hu.credentials_cases
  · refine ⟨[], ?_⟩
    rw [hnone, List.nil_append, Lib.IpText.cutLast_eq_none_iff.2 hsign, Option.getD_none]
  · refine ⟨user, ?_⟩
    rw [huser, List.append_assoc, List.singleton_append, Lib.IpText.cutLast_append hsign, Option.getD_some]

theorem Url.WellFormed.splitPort_hostString (hu : u.WellFormed hosts) :
    splitPort false u.hostString = (u.host, u.portText) := by
  rw [hostString, splitPort_append _ (hosts.bracketed hu.host), splitPort_portText, List.append_nil]

theorem Url.WellFormed.restText_cons (hu : u.WellFormed hosts) : ∃ t, u.restText = '/' :: t := by
  obtain ⟨s, path, hpath⟩ := List.exists_cons_of_ne_nil hu.path
  exact ⟨_, by rw [restText, hpath, List.flatMap_cons]; rfl⟩

theorem readAuthority_serialize (hu : u.WellFormed hosts) :
    ∃ v, readAuthority hosts u.scheme (u.credentials ++ u.hostString ++ u.restText) = some v ∧ v.origin = u.origin := by
  obtain ⟨rest, hrest⟩ := hu.restText_cons
  obtain ⟨user, huser⟩ := hu.cutLast_authority
  have hnot : ∀ c ∈ u.credentials ++ u.hostString, (!endsAuthority c) = true := by
    intro c hc
    rw [(hu.mem_authority c hc).1, Bool.not_false]
  have htake : (u.credentials ++ u.hostString ++ u.restText).takeWhile (!endsAuthority ·) = u.credentials ++ u.hostString := by
    rw [List.takeWhile_append_of_pos hnot, hrest]
    simp [endsAuthority, isSlash]
  simp only [readAuthority, htake, huser, hu.splitPort_hostString, if_neg (hosts.nonempty hu.host), hu.host,
    Option.bind_some, readPort_portText hu, Option.map_some]
  exact ⟨_, rfl, rfl⟩

theorem preprocess_eq_self (h : ∀ c ∈ t, isC0OrSpace c = false) : preprocess t = t := by
  rw [preprocess, Lib.HttpHead.trim_eq_self h, List.filter_eq_self]
  intro c hc
  by_contra htab
  simp only [isTabOrNewline, Bool.not_eq_true', Bool.not_eq_false, Bool.or_eq_true, decide_eq_true_eq] at htab
  obtain (rfl | rfl) | rfl := htab <;> exact absurd (h _ hc) (by decide)

theorem splitScheme_text (scheme : Scheme) (t : Text) : splitScheme (scheme.text ++ ':' :: t) = some (scheme.text, t) := by
  cases scheme <;> rfl

theorem ofText_text (scheme : Scheme) : Scheme.ofText scheme.text = some scheme := by
  cases scheme <;> decide

theorem Url.WellFormed.isC0OrSpace_serialize (hu : u.WellFormed hosts) :
    ∀ c ∈ u.serialize, isC0OrSpace c = false := by
  intro c hc
  rw [serialize, List.mem_append, List.mem_append, List.mem_append] at hc
  obtain ((hc | hc) | hc) | hc := hc
  · have htext : ∀ scheme : Scheme, ∀ c ∈ scheme.text, isC0OrSpace c = false := by
      intro scheme
      cases scheme <;> exact List.forall_iff_forall_mem.1 (by decide)
    exact htext u.scheme c hc
  · have hslashes : ∀ c ∈ "://".toList, isC0OrSpace c = false := List.forall_iff_forall_mem.1 (by decide)
    exact hslashes c hc
  · exact (hu.mem_authority c hc).2
  · exact hu.rest c hc

/-- The slashes skipped in front of a serialized authority are the two in front of it. -/
theorem Url.WellFormed.dropWhile_isSlash (hu : u.WellFormed hosts) (t : Text) :
    ('/' :: '/' :: (u.credentials ++ u.hostString ++ t)).dropWhile isSlash = u.credentials ++ u.hostString ++ t := by
  have hne : u.credentials ++ u.hostString ≠ [] := by simp [hostString, hosts.nonempty hu.host]
  obtain ⟨c, authority, hcons⟩ := List.exists_cons_of_ne_nil hne
  have hc : isSlash c = false :=
    (Bool.or_eq_false_iff.1 (hu.mem_authority c (by rw [hcons]; exact List.mem_cons_self)).1).1
  rw [hcons]
  simp [hc, show isSlash '/' = true from rfl]

theorem parse_serialize (base : Option Url) (hu : u.WellFormed hosts) :
    ∃ v, parse hosts base u.serialize = .special v ∧ v.origin = u.origin := by
  obtain ⟨v, hv, horigin⟩ := readAuthority_serialize hu
  refine ⟨v, ?_, horigin⟩
  have htext : preprocess u.serialize =
      u.scheme.text ++ ':' :: '/' :: '/' :: (u.credentials ++ u.hostString ++ u.restText) := by
    rw [preprocess_eq_self hu.isC0OrSpace_serialize]
    simp [Url.serialize]
  have hafter : afterSlashes hosts u.scheme ('/' :: '/' :: (u.credentials ++ u.hostString ++ u.restText)) = .special v := by
    rw [afterSlashes, hu.dropWhile_isSlash, hv]
  simp only [parse, htext, splitScheme_text, ofText_text]
  cases base with
  | none => exact hafter
  | some b =>
    -- two slashes lead to the authority whether the base has the scheme or not
    have hslashes : (!"//".toList.isPrefixOf ('/' :: '/' :: (u.credentials ++ u.hostString ++ u.restText))) = false := rfl
    exact (if_neg (by rw [hslashes, Bool.and_false]; exact Bool.false_ne_true)).trans hafter

/-! A text that begins with one slash, and not with two, stays with the base's origin. -/

theorem splitScheme_slash (t : Text) : splitScheme ('/' :: t) = none := rfl

/-- Without backslashes, tabs and newlines only two slashes name an authority. -/
theorem namesAuthority_eq_false (hplain : ∀ c ∈ t, c ≠ '\\' ∧ isTabOrNewline c = false)
    (htwo : ¬ "//".toList <+: t) : namesAuthority t = false := by
  have hkept : t.filter (!isTabOrNewline ·) = t := by
    refine List.filter_eq_self.2 fun c hc => ?_
    rw [(hplain c hc).2, Bool.not_false]
  have hslash : ∀ c ∈ t, isSlash c = true → c = '/' := by
    intro c hc hs
    simpa [isSlash, (hplain c hc).1] using hs
  rw [namesAuthority, hkept]
  split
  · next c d rest =>
    refine Bool.of_not_eq_true fun hboth => htwo ?_
    obtain ⟨hc, hd⟩ := Bool.and_eq_true_iff.1 hboth
    rw [hslash c (by simp) hc, hslash d (by simp) hd]
    exact ⟨rest, rfl⟩
  · rfl

variable (hosts) in
theorem parse_slash_origin (base : Url) (h : namesAuthority ('/' :: t) = false) :
    ∃ u, parse hosts (some base) ('/' :: t) = .special u ∧ u.origin = base.origin := by
  obtain ⟨a, b, htrim, rfl⟩ := Lib.HttpHead.trim_cons (show isC0OrSpace '/' = false from rfl) t
  have hpre : preprocess ('/' :: (a ++ b)) = '/' :: a.filter (!isTabOrNewline ·) := by
    rw [preprocess, htrim, List.filter_cons_of_pos (by decide)]
  have hhead : (a.filter (!isTabOrNewline ·)).head?.any isSlash = false := by
    rw [namesAuthority, List.filter_cons_of_pos (by decide), List.filter_append] at h
    cases ha : a.filter (!isTabOrNewline ·) with
    | nil => rfl
    | cons d rest =>
      rw [ha] at h
      exact h
  simp only [parse, hpre, splitScheme_slash, relative, show isSlash '/' = true from rfl, if_true, hhead]
  exact ⟨_, rfl, rfl⟩

end Lib.WhatwgUrl
