import CaptivoAccess.Spec.Egress
import CaptivoAccess.Spec.ProxyHeaders

/-! The handlers of the connector that are given an upstream URL: a proxied request, a
WebSocket and a probe (`resolveUpstreamTarget`, `handleDial`, `handleWS` and `handleProbe` in
`connector/handler.go`). Each takes the address it dials out of the URL in its own way. -/

namespace Captivo.Egress

open Lib.Dns Lib.HostPort
open Captivo.Proxy (trimSpace)

/-- What `url.Parse` makes of an upstream URL. -/
structure UpstreamURL where
  scheme : Text
  host : Text
  deriving DecidableEq

structure Upstream extends UpstreamURL where
  scheme_eq : scheme = "http".toList ∨ scheme = "https".toList
  named : hostname host ≠ []

/-- The first check of the handlers. -/
def accept (u : UpstreamURL) : Option Upstream :=
  if h : (u.scheme = "http".toList ∨ u.scheme = "https".toList) ∧ hostname u.host ≠ [] then some ⟨u, h.1, h.2⟩ else none

def Upstream.port (u : Upstream) : Text :=
  if portOf u.host ≠ [] then portOf u.host else if u.scheme = "https".toList then "443".toList else "80".toList

/-- A request as it comes off the tunnel: the URL, unless `url.Parse` fails; whether the path begins with a slash and stays on the
host; and whether the header is free of line breaks. -/
structure DialRequest where
  upstreamUrl : Option UpstreamURL
  pathOk : Bool
  headerOk : Bool

section Handlers

variable (allow policy : TargetMatcher)

def resolveUpstreamTarget (req : DialRequest) : Except String Upstream :=
  match req.upstreamUrl.bind accept with
  | none => .error "bad upstream url"
  | some base =>
    if egressAllowed allow policy base.host = false then .error "target not allowed"
    else if req.pathOk = false then .error "invalid path"
    else .ok base

/-- The transport of `net/http` takes the host in ASCII, and brackets it where it has to. -/
def handleDial (idnaASCII : Text → Text) (req : DialRequest) : Except String Text := do
  let base ← resolveUpstreamTarget allow policy req
  return joinHostPort (idnaASCII (hostname base.host)) base.port

def handleWS (req : DialRequest) : Except String Text := do
  let base ← resolveUpstreamTarget allow policy req
  if req.headerOk = false then throw "invalid header"
  return if portOf base.host = [] then joinHostPort (hostname base.host) base.port else base.host

/-- A probe has no path. -/
def handleProbe (req : DialRequest) : Except String Text :=
  match req.upstreamUrl.bind accept with
  | none => .error "bad upstream url"
  | some base =>
    if egressAllowed allow policy base.host = false then .error "target not allowed"
    else .ok (joinHostPort (hostname base.host) base.port)

inductive Handler where
  | dial
  | ws
  | probe
  deriving DecidableEq

def handle (idnaASCII : Text → Text) : Handler → DialRequest → Except String Text
  | .dial => handleDial allow policy idnaASCII
  | .ws => handleWS allow policy
  | .probe => handleProbe allow policy

end Handlers

end Captivo.Egress
