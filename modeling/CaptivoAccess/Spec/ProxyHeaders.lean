import CaptivoAccess.Lib.HttpHead
import CaptivoAccess.Lib.Utf8

/-! Headers on their way through the proxy: those of a request (`sanitizeReqHeaders` in
`browserproxy.go`), of a response over plain HTTP (`copyRespHeaders`, then the server of
`net/http`), and of a WebSocket handshake (`handleWS` in the connector's `handler.go`,
`serveWebSocket` in `wsproxy.go`). Strings are read as their runes, which is also what the
tunnel's JSON carries of them. -/

namespace Captivo.Proxy

open Lib.Utf8 Lib.HttpHead

/-- The tables that `strings.ToLower` and `strings.EqualFold` look a rune up in. -/
structure Unicode where
  lower : Char → Char
  fold : Char → Char
  lower_ascii : ∀ c, c.toNat < 0x80 → lower c = c.toLower
  fold_ascii : ∀ c, c.toNat < 0x80 → fold c = c.toLower

theorem toLower_ascii (c : Char) (_ : c.toNat < 0x80) : c.toLower = c.toLower := rfl

def asciiTables : Unicode := ⟨Char.toLower, Char.toLower, toLower_ascii, toLower_ascii⟩

def Unicode.toLower (uni : Unicode) (s : Text) : Text := s.map uni.lower

def Unicode.equalFold (uni : Unicode) (s t : Text) : Bool := s.map uni.fold = t.map uni.fold

def isSpace (c : Char) : Bool :=
  (9 ≤ c.toNat && c.toNat ≤ 13) || (0x2000 ≤ c.toNat && c.toNat ≤ 0x200A) ||
    c.toNat ∈ [0x20, 0x85, 0xA0, 0x1680, 0x2028, 0x2029, 0x202F, 0x205F, 0x3000]

def trimSpace (s : Text) : Text := trim isSpace s

abbrev Header := List (Text × List Text)

/-- `header[k] = append(header[k], v)`. -/
def addValue (header : Header) (k v : Text) : Header :=
  if header.any (·.1 = k) then header.map fun e => if e.1 = k then (e.1, e.2 ++ [v]) else e else header ++ [(k, [v])]

def fields (header : Header) : List Field := header.flatMap fun e => e.2.map fun v => (e.1, v)

def reservedAuthCookies : List Text := ["ca_session".toList, "ca_challenge".toList, "ca_recover".toList]

def hopByHopHeaders : List Text :=
  ["connection".toList, "keep-alive".toList, "proxy-authenticate".toList, "proxy-authorization".toList, "te".toList,
    "trailer".toList, "transfer-encoding".toList, "upgrade".toList]

def isTokenChar (c : Char) : Bool := c.isAlphanum || c ∈ "!#$%&'*+-.^_`|~".toList

def canonicalFrom : Bool → Text → Text
  | _, [] => []
  | upper, c :: cs => (if upper then c.toUpper else c.toLower) :: canonicalFrom (c = '-') cs

def canonicalMIMEHeaderKey (k : Text) : Text := if k.all isTokenChar then canonicalFrom true k else k

/-! Requests. -/

structure Request where
  method : Text
  header : Header
  cookies : List (Text × Text)
  remoteIP : Text
  canonical : ∀ e ∈ header, canonicalMIMEHeaderKey e.1 = e.1

/-- `out[k] = vs`. -/
def setKey (header : Header) (k : Text) (vs : List Text) : Header :=
  if header.any (·.1 = k) then header.map fun e => if e.1 = k then (k, vs) else e else header ++ [(k, vs)]

/-- `Header.Get` of a canonical key. -/
def get (header : Header) (k : Text) : Text := ((header.filter (·.1 = k)).flatMap (·.2)).headD []

def gatewayUserHeader : Text := "X-Captivo-User".toList

def filteredCookieHeader (uni : Unicode) (r : Request) : Text :=
  List.intercalate "; ".toList
    ((r.cookies.filter fun c => uni.toLower c.1 ∉ reservedAuthCookies).map fun c => c.1 ++ '=' :: c.2)

def sanitizeReqHeaders (uni : Unicode) (r : Request) (host : Text) : Header :=
  let kept := r.header.filter fun e =>
    !(uni.toLower e.1 ∈ hopByHopHeaders || uni.equalFold e.1 "Cookie".toList || uni.equalFold e.1 gatewayUserHeader)
  let cookie := filteredCookieHeader uni r
  let withCookie := if cookie ≠ [] then setKey kept "Cookie".toList [cookie] else kept
  let existing := get r.header "X-Forwarded-For".toList
  let ip := if existing ≠ [] then existing ++ ", ".toList ++ r.remoteIP else r.remoteIP
  let withIP := if r.remoteIP ≠ [] then setKey withCookie "X-Forwarded-For".toList [ip] else withCookie
  setKey withIP "X-Forwarded-Host".toList [host]

def setGatewayIdentity (header : Header) (gateway : Bool) (email : Text) : Header :=
  if gateway && email ≠ [] then setKey header gatewayUserHeader [email] else header

/-! Plain HTTP. -/

/-- What stands before the first equals sign, or all of it where there is none. -/
def setCookieName (setCookie : Text) : Text := trimSpace (setCookie.takeWhile (· ≠ '='))

/-- The entries added to `dst`, each under its canonical key. -/
def copyRespHeaders (uni : Unicode) (src : Header) : List Field :=
  src.flatMap fun e =>
    if uni.toLower e.1 ∈ hopByHopHeaders then []
    else
      let vs := if uni.equalFold e.1 "Set-Cookie".toList then
          e.2.filter fun v => uni.toLower (setCookieName v) ∉ reservedAuthCookies
        else e.2
      vs.map fun v => (canonicalMIMEHeaderKey e.1, v)

def newlineToSpace (c : Char) : Char := if c = '\r' || c = '\n' then ' ' else c

/-- What `textproto.TrimString` trims. -/
def isASCIISpace (c : Char) : Bool := c = ' ' || c = '\t' || c = '\n' || c = '\r'

/-- How the server writes its header: a name that is no token is left out, a value stays on its line. -/
def writeSubset (fs : List Field) : List Field :=
  (fs.filter fun f => f.1 ≠ [] && f.1.all isTokenChar).map fun f => (f.1, trim isASCIISpace (f.2.map newlineToSpace))

def digit (n : ℕ) : Char := Char.ofNat (48 + n % 10)

/-- The status line, without the phrase that no browser reads. -/
def statusLine (status : ℕ) : Text := "HTTP/1.1 ".toList ++ [digit (status / 100), digit (status / 10), digit status]

def contentType (v : String) : Field := ("Content-Type".toList, v.toList)

def isHTMLContentType (uni : Unicode) (header : Header) : Bool :=
  header.any fun e => uni.equalFold e.1 "Content-Type".toList &&
    e.2.any fun v => "text/html".toList.isPrefixOf (uni.toLower (trimSpace v))

/-- A coding other than `identity`. -/
def isCompressed (uni : Unicode) (header : Header) : Bool :=
  header.any fun e => uni.equalFold e.1 "Content-Encoding".toList &&
    e.2.any fun v => trimSpace v ≠ [] && !uni.equalFold (trimSpace v) "identity".toList

/-! WebSockets. -/

structure WsDialResponse where
  status : ℤ
  header : Header
  error : Text

def readLines : Bytes → Bytes → List Bytes
  | _, [] => []
  | line, b :: bs => if b = 10 then (line ++ [b]) :: readLines [] bs else readLines (line ++ [b]) bs

/-- `strconv.Atoi` with its error ignored. -/
def atoi (s : Text) : ℤ :=
  let ds := match s with
    | '-' :: ds => ds
    | '+' :: ds => ds
    | _ => s
  let n : ℤ := (Nat.ofDigits 10 (ds.reverse.map fun c => c.toNat - 48) : ℕ)
  if ds = [] || !ds.all Char.isDigit then 0
  else if s.head? = some '-' then max (-n) (-2 ^ 63)
  else min n (2 ^ 63 - 1)

def handshakeStatus (line : Bytes) : ℤ :=
  let s := trimSpace (text line)
  if ' ' ∈ s then atoi (((s.dropWhile (· ≠ ' ')).drop 1).takeWhile (· ≠ ' ')) else 0

def maxHeaderBytes : ℕ := 64 * 1024

def trimEnd (line : Bytes) : Bytes := line.rdropWhile fun b => b = 13 || b = 10

def addLine (header : Header) (line : Bytes) : Header :=
  if 58 ∈ line then
    addValue header (trimSpace (text (line.takeWhile (· ≠ 58)))) (trimSpace (text ((line.dropWhile (· ≠ 58)).drop 1)))
  else header

def readHeader (headerBytes : ℕ) (header : Header) : List Bytes → Except Text Header
  | [] => .error "upstream handshake failed".toList
  | line :: lines =>
    if headerBytes + line.length > maxHeaderBytes then .error "upstream handshake too large".toList
    else if trimEnd line = [] then .ok header
    else readHeader (headerBytes + line.length) (addLine header (trimEnd line)) lines

/-- What `handleWS` answers for the bytes that the upstream sends it. -/
def handleWS (stream : Bytes) : WsDialResponse :=
  match readLines [] stream with
  | [] => ⟨0, [], "upstream handshake failed".toList⟩
  | line :: lines =>
    match readHeader 0 [] lines with
    | .error msg => ⟨0, [], msg⟩
    | .ok header => ⟨handshakeStatus line, header, []⟩

/-- The head that `serveWebSocket` answers with: on a 101 the upstream's own. -/
def serveWebSocket (wresp : WsDialResponse) : Text :=
  if wresp.error ≠ [] || wresp.status ≠ 101 then
    writeHead (statusLine 502)
      [contentType "text/plain; charset=utf-8", ("X-Content-Type-Options".toList, "nosniff".toList)]
  else writeHead "HTTP/1.1 101 Switching Protocols".toList (fields wresp.header)

end Captivo.Proxy
