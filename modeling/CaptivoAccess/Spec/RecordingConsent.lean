import CaptivoAccess.Spec.DataPlane

/-! The acknowledgement that a session is recorded, over a sequence of requests. On a web site
the proxy asks for it (`browserproxy.go`) and queues its audit event (`audit.go`); for a
gateway or isolated site the page of the session does
(`gateway/[siteId]/session/page.tsx`, `consent-gate.tsx`), and the manager appends the
event (`api/gateway/[siteId]/consent/route.ts`). The tunnels are endpoints of their own. -/

namespace Captivo.Consent

open Lib.Dns Captivo.DataPlane

/-- The audit event in which a user acknowledges that a site is recorded. -/
structure Ack where
  userID : Text
  siteID : Text
  deriving DecidableEq

/-! The data plane. -/

/-- The user and the site that `BrowserProxy.ServeHTTP` has let in. -/
def admitted (p : Plane) (r : Request) : Option (Text × SiteInfo) :=
  match resolveSession p r.caSession with
  | none => none
  | some userID =>
    if !p.answers .byHost then none
    else match siteByHost p.manager r.host with
      | none => none
      | some site =>
        match ask p .check (checkAccess p.manager p.now userID site.siteID (trustedClientIP p r)) with
        | some (true, _) => some (userID, site)
        | _ => none

def asked (x : Text × SiteInfo) : Option Ack :=
  if x.2.recordSessions && x.2.consentRequired then some ⟨x.1, x.2.siteID⟩ else none

/-- The request is the one that the proxy takes for an acknowledgement. -/
def acknowledges (p : Plane) (r : Request) : Option Ack :=
  if muxRedirects p r || endpoint r.path ≠ .proxy || r.path ≠ consentPath then none else (admitted p r).bind asked

def recordOf : Descriptor → Bool
  | .guac _ _ record => record
  | .kasm _ _ _ record => record

/-- The acknowledgement that a tunnel to the site should have, where its session is recorded and the tenant requires it. -/
def tunnelAck (p : Plane) (r : Request) (siteID : Text) : Option Ack :=
  match resolveSession p r.caSession with
  | none => none
  | some userID =>
    match gatewayDescriptor p.manager p.now userID siteID, scopeOf p.manager (resolveTenantBySite p.manager siteID) with
    | some d, some scope => if recordOf d && p.manager.recordingConsentRequired scope then some ⟨userID, siteID⟩ else none
    | _, _ => none

/-- A page or a websocket is proxied, guacd is bridged, or the broker has opened a browser. -/
def startsSession (o : Outcome) : Endpoint → Bool
  | .proxy => o.dials.any fun d => d.stream = .upstream || d.stream = .websocket
  | .guacTunnel => o.status = 101
  | .kasmTunnel => 1 < o.dials.length
  | .guacView | .kasmView => false

/-- The acknowledgement that a session which the request starts should have. -/
def recordedStart (p : Plane) (r : Request) : Option Ack :=
  if startsSession (serve p r) (endpoint r.path) then
    match endpoint r.path with
    | .proxy => (admitted p r).bind asked
    | .guacTunnel => tunnelAck p r r.site
    | .kasmTunnel => tunnelAck p r (if r.site ≠ [] then r.site else r.caKasmSite)
    | .guacView | .kasmView => none
  else none

/-! The manager and its pages. -/

/-- The site is recorded and the tenant requires an acknowledgement. -/
def inForce (m : Manager) (scope : Text) (site : Site) : Bool :=
  effectiveSiteRecording m scope site.recordSessions && m.recordingConsentRequired scope

inductive Page where
  | notFound
  | gate
  | viewer
  deriving DecidableEq

/-- `GatewaySessionPageImpl`, with the value of the cookie `ca_rec_consent_<siteId>`. -/
def sessionPage (m : Manager) (nativeGateway : Bool) (scope siteID cookie : Text) : Page :=
  match findSite m scope siteID with
  | none => .notFound
  | some site =>
    if !(nativeGateway && site.accessMode = .GATEWAY) && !(m.isolationEnabled && site.accessMode = .ISOLATED) then .notFound
    else if inForce m scope site && cookie ≠ "1".toList then .gate
    else .viewer

/-! Sequences of requests. -/

structure World where
  queue : List Ack
  log : List Ack
  siteCookies : List Ack
  gatewayCookies : List Ack
  /-- Who was shown the session of a site while an acknowledgement was required. -/
  viewers : List Ack
  deriving DecidableEq

inductive Input where
  | request (p : Plane) (r : Request)
  | page (m : Manager) (nativeGateway : Bool) (scope userID siteID cookie : Text)
  /-- The button of the gate: its request may not reach the manager, and the append may fail; the session is shown in any case. -/
  | accept (m : Manager) (scope userID siteID : Text) (reached appended : Bool)
  /-- A tick of the flush: so many events are sent, and the manager stores some. -/
  | flush (n : ℕ) (stored : Ack → Bool)
  /-- The queue is full and loses its oldest event. -/
  | drop

def start : World := ⟨[], [], [], [], []⟩

def step (w : World) : Input → World
  | .request p r =>
    match acknowledges p r with
    | none => w
    | some ack => { w with queue := w.queue ++ [ack], siteCookies := w.siteCookies ++ [ack] }
  | .page m nativeGateway scope userID siteID cookie =>
    if sessionPage m nativeGateway scope siteID cookie = .viewer && (findSite m scope siteID).any (inForce m scope) then
      { w with viewers := w.viewers ++ [⟨userID, siteID⟩] }
    else w
  | .accept m scope userID siteID reached appended =>
    let ack : Ack := ⟨userID, siteID⟩
    let posted := reached && (findSite m scope siteID).isSome
    { w with
      log := if posted && appended then w.log ++ [ack] else w.log
      gatewayCookies := if posted then w.gatewayCookies ++ [ack] else w.gatewayCookies
      viewers := w.viewers ++ [ack] }
  | .flush n stored => { w with queue := w.queue.drop n, log := w.log ++ (w.queue.take n).filter stored }
  | .drop => { w with queue := w.queue.tail }

def run (inputs : List Input) : World := inputs.foldl step start

end Captivo.Consent
