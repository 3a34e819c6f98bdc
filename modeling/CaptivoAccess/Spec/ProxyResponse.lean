import CaptivoAccess.Lib.Splice
import CaptivoAccess.Spec.ProxyHeaders

/-! A proxied response and the scripts that the data plane puts into its pages
(`ServeHTTP` and `writeProxyResponse` in `browserproxy.go`), with the connector's HTTP
client between it and the upstream (`handleDial`). -/

namespace Captivo.Proxy

open Lib.Utf8 Lib.HttpHead Lib.Splice

/-! The scripts. -/

def recorderScriptTag : Bytes := bytesOf "<script src=\"/__captivo/rec.js\" defer></script>"

def clipboardRestricted (mode : Text) : Bool := mode = "no_copy".toList || mode = "no_paste".toList || mode = "none".toList

def clipboardScript (mode : Text) : Bytes :=
  bytesOf "<script>(function()\x7bfunction b(e)\x7be.preventDefault();e.stopImmediatePropagation();\x7d" ++
  (if mode = "no_copy".toList || mode = "none".toList then
    bytesOf "document.addEventListener('copy',b,true);document.addEventListener('cut',b,true);" else []) ++
  (if mode = "no_paste".toList || mode = "none".toList then bytesOf "document.addEventListener('paste',b,true);" else []) ++
  bytesOf "\x7d)();</script>"

def hexDigit (n : ℕ) : Char := if n < 10 then Char.ofNat (48 + n) else Char.ofNat (87 + n)

/-- A rune in a JSON text; `json.Marshal` also escapes what HTML gives a meaning. -/
def jsonRune (c : Char) : Text :=
  if c = '"' then "\\\"".toList
  else if c = '\\' then "\\\\".toList
  else if c = '\n' then "\\n".toList
  else if c = '\r' then "\\r".toList
  else if c = '\t' then "\\t".toList
  else if c.toNat = 8 then "\\b".toList
  else if c.toNat = 12 then "\\f".toList
  else if c.toNat < 0x20 || c = '<' || c = '>' || c = '&' then
    "\\u00".toList ++ [hexDigit (c.toNat / 16), hexDigit (c.toNat % 16)]
  else if c.toNat = 0x2028 then "\\u2028".toList
  else if c.toNat = 0x2029 then "\\u2029".toList
  else [c]

def utf8 (s : Text) : Bytes := s.flatMap fun c => encodeRune c.toNat

def quoted (s : Text) : Bytes := utf8 ('"' :: s.flatMap jsonRune ++ ['"'])

def watermarkTail : Bytes :=
  bytesOf ";var d=document.createElement('div');d.id='__captivo_wm';d.setAttribute('style','position:fixed;" ++
  bytesOf "inset:0;z-index:2147483646;pointer-events:none;opacity:.14;');function svg(s)" ++
  bytesOf "\x7breturn \"url(\\\"data:image/svg+xml;utf8," ++
  bytesOf "\"+encodeURIComponent('<svg xmlns=\\'http://www.w3.org/2000/svg\\' width=\\'420\\' height=\\'220\\'>" ++
  bytesOf "<text x=\\'20\\' y=\\'120\\' transform=\\'rotate(-24 210 110)\\' font-family=\\'system-ui," ++
  bytesOf "sans-serif\\' font-size=\\'18\\' font-weight=\\'600\\' fill=\\'#000\\'>'+s.replace(/&/g,'&amp;')" ++
  bytesOf ".replace(/</g,'&lt;')+'</text></svg>')+\"\\\")\";\x7dfunction paint()\x7bvar n=new Date();" ++
  bytesOf "var hh=('0'+n.getUTCHours()).slice(-2),mm=('0'+n.getUTCMinutes()).slice(-2);" ++
  bytesOf "d.style.backgroundImage=svg(t+'  \\u00b7  '+n.toISOString().slice(0,10)+' '+hh+':'+mm+' UTC');" ++
  bytesOf "\x7dpaint();setInterval(paint,60000);var m=function()\x7bif(document.body)" ++
  bytesOf "document.body.appendChild(d);\x7d;if(document.body)m();else addEventListener('DOMContentLoaded',m);" ++
  bytesOf "\x7dcatch(e)\x7b\x7d\x7d)();</script>"

def watermarkScript (s : Text) : Bytes := bytesOf "<script>(function()\x7btry\x7bvar t=" ++ quoted s ++ watermarkTail

/-! Injection. -/

def lowerByte (b : UInt8) : UInt8 := if 65 ≤ b && b ≤ 90 then b + 32 else b

/-- `bytes.EqualFold` against a byte of the two markers, whose letters fold with none outside ASCII. -/
def equalFoldByte (a b : UInt8) : Bool := lowerByte a = lowerByte b

def headEnd : Bytes := ascii "</head>"

def bodyEnd : Bytes := ascii "</body>"

def indexFold (b sub : Bytes) : Option ℕ := index equalFoldByte sub b

def injectBeforeBody (body tag : Bytes) : Bytes :=
  match indexFold body headEnd with
  | some i => insertAt body tag i
  | none =>
    match indexFold body bodyEnd with
    | some i => insertAt body tag i
    | none => tag ++ body

def maxInjectableBodyBytes : ℕ := 8 * 1024 * 1024

structure Policy where
  recordSessions : Bool
  clipboardMode : Text
  gateway : Bool
  watermark : Bool
  email : Text

def Policy.watermarkText (p : Policy) : Text := if p.watermark && !p.gateway then p.email else []

/-- The scripts that the policy asks for, in the order they are put in. -/
def Policy.scripts (p : Policy) : List Bytes :=
  (if p.recordSessions then [recorderScriptTag] else []) ++
  (if clipboardRestricted p.clipboardMode then [clipboardScript p.clipboardMode] else []) ++
  (if p.watermarkText ≠ [] then [watermarkScript p.watermarkText] else [])

structure Reply where
  status : ℕ
  header : Header
  body : Bytes

structure Written where
  status : ℕ
  fields : List Field
  body : Bytes

def del (fs : List Field) (k : String) : List Field := fs.filter (·.1 ≠ k.toList)

def writeProxyResponse (uni : Unicode) (p : Policy) (w : List Field) (resp : Reply) : Written :=
  let inject := p.recordSessions || clipboardRestricted p.clipboardMode || p.watermarkText ≠ []
  if !inject || !isHTMLContentType uni resp.header || isCompressed uni resp.header then ⟨resp.status, w, resp.body⟩
  else if resp.body.length > maxInjectableBodyBytes then ⟨resp.status, w, resp.body⟩
  else
    let injected := if p.recordSessions then injectBeforeBody resp.body recorderScriptTag else resp.body
    let injected := if clipboardRestricted p.clipboardMode then
      injectBeforeBody injected (clipboardScript p.clipboardMode) else injected
    let injected := if p.watermarkText ≠ [] then
      injectBeforeBody injected (watermarkScript p.watermarkText) else injected
    let w := del (del (del w "Content-Security-Policy") "Content-Security-Policy-Report-Only") "Content-Length"
    ⟨resp.status, w ++ [("Content-Length".toList, (toString injected.length).toList)], injected⟩

/-! The way to the upstream and back. -/

def acceptEncoding : Text := "Accept-Encoding".toList

/-- The headers of the browser's own request as they are sent on. -/
def ownHeaders (uni : Unicode) (p : Policy) (r : Request) (host : Text) : Header :=
  setGatewayIdentity (sanitizeReqHeaders uni r host) p.gateway p.email

def requestHeaders (uni : Unicode) (p : Policy) (r : Request) (host : Text) : Header :=
  if p.recordSessions then setKey (ownHeaders uni p r host) acceptEncoding ["identity".toList]
  else ownHeaders uni p r host

/-- `req.Header.Add` for every value. -/
def added (header : Header) : List Field := (fields header).map fun f => (canonicalMIMEHeaderKey f.1, f.2)

def valuesOf (req : List Field) (k : Text) : List Text := (req.filter (·.1 = k)).map (·.2)

/-- What undoes the coding that a header names; without one there is nothing to undo. -/
structure Codec (uni : Unicode) where
  decode : Header → Bytes → Bytes
  decode_plain : ∀ header body, isCompressed uni header = false → decode header body = body

/-- A request that names no coding is sent with `gzip` by Go's transport, which then undoes it. -/
def clientDo {uni : Unicode} (codec : Codec uni) (answer : List Field → Reply) (method : Text) (req : List Field) : Reply :=
  if (valuesOf req acceptEncoding).headD [] = [] && (valuesOf req "Range".toList).headD [] = [] && method ≠ "HEAD".toList then
    let resp := answer (req ++ [(acceptEncoding, "gzip".toList)])
    if (get resp.header "Content-Encoding".toList).map Char.toLower = "gzip".toList then
      { resp with
        header := resp.header.filter fun e => e.1 ≠ "Content-Encoding".toList && e.1 ≠ "Content-Length".toList
        body := codec.decode resp.header resp.body }
    else resp
  else answer req

def refused (params : Text) : Bool :=
  let weight := (params.filter (· ≠ ' ')).map Char.toLower
  ";q=0".toList.isPrefixOf weight && (weight.drop 3).all fun c => c = '0' || c = '.'

def offers (values : List Text) : Bool :=
  values.any fun v => (v.splitOn ',').any fun item =>
    let coding := (trim isWsp (item.takeWhile (· ≠ ';'))).map Char.toLower
    coding ≠ [] && coding ≠ "identity".toList && !refused (item.dropWhile (· ≠ ';'))

/-- An upstream that compresses only what it was offered to. -/
structure Origin (uni : Unicode) where
  answer : List Field → Reply
  honest : ∀ req, isCompressed uni (answer req).header = true → offers (valuesOf req acceptEncoding) = true

def fetch {uni : Unicode} (codec : Codec uni) (origin : Origin uni) (r : Request) (header : Header) : Reply :=
  clientDo codec origin.answer r.method (added header)

/-- The page as the browser shows it: the data plane leaves the coding and its header as they are. -/
def shown {uni : Unicode} (codec : Codec uni) (p : Policy) (resp : Reply) : Bytes :=
  codec.decode resp.header (writeProxyResponse uni p (copyRespHeaders uni resp.header) resp).body

/-! Heads. -/

def errorPage (status : ℕ) : Text := writeHead (statusLine status) [contentType "text/html; charset=utf-8"]

/-- The head that `ServeHTTP` answers with; none is an error of the tunnel or of the connector. On a
status that is none, the server breaks the connection off. -/
def serveHTTP (uni : Unicode) (p : Policy) : Option Reply → Text
  | none => errorPage 502
  | some resp =>
    if resp.status < 100 || 999 < resp.status then []
    else
      let written := writeProxyResponse uni p (copyRespHeaders uni resp.header) resp
      writeHead (statusLine written.status) (writeSubset written.fields)

/-- What an upstream answers: over HTTP what the connector's client makes of it, to an upgrade its bytes. -/
inductive Upstream where
  | http (p : Policy) (resp : Option Reply)
  | websocket (stream : Bytes)

def reaching (uni : Unicode) : Upstream → Text
  | .http p resp => serveHTTP uni p resp
  | .websocket stream => serveWebSocket (handleWS stream)

end Captivo.Proxy
