import CaptivoAccess.Lib.TrimBytes
import CaptivoAccess.Spec.AuditLog

/-! What `BrowserProxy.ServeHTTP` asks the manager about a request, and the audit events it
queues for it (`browserproxy.go`, `wsproxy.go`), behind a front proxy that appends the
address of its peer to `X-Forwarded-For`. -/

namespace Captivo.ProxyAudit

open Lib.Utf8 Lib.TrimBytes Captivo.Audit

/-- A request as the data plane gets it. A header or cookie that is missing is the empty string. -/
structure ProxyRequest extends Request where
  host : Bytes
  caSession : Bytes
  consent : Bytes
  remoteIP : Bytes
  webSocketUpgrade : Bool

def afterLastComma (xff : Bytes) : Bytes := (xff.reverse.takeWhile (· ≠ 44)).reverse

def trustedClientIP (r : ProxyRequest) : Bytes :=
  if r.xForwardedFor ≠ [] then trimSpace (afterLastComma r.xForwardedFor) else r.remoteIP

structure SiteInfo where
  siteID : Bytes
  recordSessions : Bool
  consentRequired : Bool

/-- The clock, and how the manager, the connector and the tracker of web sessions answer. The upstream sees the request. -/
structure Env where
  now : ℕ → ℤ
  resolveSession : Bytes → Bytes
  siteByHost : Bytes → Option SiteInfo
  checkAccess : Bytes → Bytes → Bytes → Option (Bool × Bytes)
  /-- The text of the time a websocket was open, and the bytes that were sent; none if it was not opened. -/
  webSocket : ProxyRequest → Option (Bytes × ℤ)
  /-- The status and the bytes of a response; none if there was no response. -/
  upstream : ProxyRequest → Option (ℤ × ℤ)
  newSpan : Bool

/-- The address the access decision was asked for, and the events that were queued. -/
structure Served where
  checked : Option Bytes
  events : List AuditEvent

def consentPath : Bytes := ascii "/__captivo/consent"

def reserved (path : Bytes) : Bool := (ascii "/__captivo/").isPrefixOf path

variable (env : Env)

/-- The `i`th event of a request. -/
def event (r : ProxyRequest) (userID siteID : Bytes) (i : ℕ) (decision : String) (reason : Bytes) (status bytes : ℤ) : AuditEvent :=
  auditEvent trimSpace (env.now i) (ascii decision) reason userID siteID r.host r.toRequest status bytes

/-- `ServeHTTP` once access is allowed. -/
def serveAllowed (r : ProxyRequest) (userID : Bytes) (site : SiteInfo) : List AuditEvent :=
  let event := event env r userID site.siteID
  if site.recordSessions && site.consentRequired && r.urlPath = consentPath then
    [event 0 "ALLOW" (ascii "recording_consent") 302 0]
  else if site.recordSessions && site.consentRequired && !reserved r.urlPath && r.consent = [] then []
  else if reserved r.urlPath then []
  else if r.webSocketUpgrade then
    match env.webSocket r with
    | none => []
    | some (dur, total) =>
      [event 0 "ALLOW" (ascii "session_open") 101 0, event 1 "ALLOW" (ascii "session_close " ++ dur) 101 total]
  else match env.upstream r with
    | none => []
    | some (status, written) =>
      (if env.newSpan then [event 0 "ALLOW" (ascii "session_open") status 0] else []) ++ [event 1 "ALLOW" [] status written]

def serveHTTP (r : ProxyRequest) : Served :=
  let userID := env.resolveSession r.caSession
  if userID = [] then ⟨none, []⟩
  else match env.siteByHost r.host with
    | none => ⟨none, []⟩
    | some site =>
      match env.checkAccess userID site.siteID (trustedClientIP r) with
      | none => ⟨some (trustedClientIP r), []⟩
      | some (false, reason) => ⟨some (trustedClientIP r), [event env r userID site.siteID 0 "DENY" reason 403 0]⟩
      | some (true, _) => ⟨some (trustedClientIP r), serveAllowed env r userID site⟩

/-! The front proxy. -/

structure Peer where
  text : Bytes
  ne_nil : text ≠ []
  graphic : ∀ b ∈ text, Graphic b
  no_comma : 44 ∉ text

/-- The request as it is handed on: the fields that the client supplied, and the address of the peer as the last entry. -/
def forward (peer : Peer) (supplied : List Bytes) (r : ProxyRequest) : ProxyRequest :=
  { r with xForwardedFor := supplied.flatMap (· ++ [44, 32]) ++ peer.text }

end Captivo.ProxyAudit
