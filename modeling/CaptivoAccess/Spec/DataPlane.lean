import CaptivoAccess.Spec.Access

/-! The browser-facing listener of the data plane (`main.go`): the reverse proxy
(`browserproxy.go`, `wsproxy.go`), the gateway and isolated-browser tunnels
(`guactunnel.go`, `kasmtunnel.go`) and the viewers (`guacview.go`, `kasmview.go`), with
the internal routes of the manager that each of them asks. A request is answered with a
status and the streams it opened to connectors. -/

namespace Captivo.DataPlane

open Lib.Dns Captivo.Access

/-! The manager. -/

inductive AccessMode where
  | TRANSPARENT
  | GATEWAY
  | ISOLATED
  deriving DecidableEq

inductive Role where
  | ADMIN
  | OPERATOR
  | AUDITOR
  | STAFF
  | VENDOR
  | PLATFORM
  deriving DecidableEq

/-- `can(role, "read_console")`. -/
def canReadConsole : Role → Bool
  | .ADMIN | .OPERATOR | .AUDITOR => true
  | .STAFF | .VENDOR | .PLATFORM => false

inductive RecordingMode where
  | per_resource
  | off
  | required
  deriving DecidableEq

def effectiveRecordSessions (mode : RecordingMode) (siteToggle : Bool) : Bool :=
  match mode with
  | .off => false
  | .required => true
  | .per_resource => siteToggle

/-- A row of `Site`. Without a connector the id is the empty text, as it reaches the data plane. -/
structure Site where
  id : Text
  tenantId : Text
  accessMode : AccessMode
  connectorId : Text
  recordSessions : Bool
  hasCredential : Bool
  deriving DecidableEq

structure User where
  tenantId : Text
  active : Bool
  role : Role

structure Manager where
  multiTenant : Bool
  net : Net
  intl : Intl
  /-- `String.prototype.trim`. -/
  trim : Text → Text
  sites : Text → Option Site
  siteOfHost : Text → Option Site
  users : Text → Option User
  grants : Text → Text → Text → List Grant
  /-- The settings of a tenant. A read that fails counts as no settings. -/
  vendorIpAllowlist : Text → Option Text
  recordingMode : Text → RecordingMode
  recordingConsentRequired : Text → Bool
  sessions : Text → Option Text
  recordingEnabled : Bool
  isolationEnabled : Bool
  guacdAddr : Text
  kasmAddr : Text
  kasmControlAddr : Text

def DEFAULT_TENANT : Text := "default".toList

def resolvedVendorIpAllowlist (m : Manager) (tenant : Text) : Text := m.trim ((m.vendorIpAllowlist tenant).getD [])

def effectiveSiteRecording (m : Manager) (tenant : Text) (recordSessions : Bool) : Bool :=
  m.recordingEnabled && effectiveRecordSessions (m.recordingMode tenant) recordSessions

/-- `withTenantFrom`: the tenant whose scope a route runs in; none is an unknown tenant. -/
def scopeOf (m : Manager) (tenant : Option Text) : Option Text := if m.multiTenant then tenant else some DEFAULT_TENANT

def resolveTenantBySite (m : Manager) (siteId : Text) : Option Text := (m.sites siteId).map Site.tenantId

def resolveTenantByUser (m : Manager) (userId : Text) : Option Text := (m.users userId).map User.tenantId

/-- In the scope of a tenant the rows of another one are not found. -/
def sees (m : Manager) (scope rowTenant : Text) : Bool := !m.multiTenant || scope = rowTenant

def findSite (m : Manager) (scope siteId : Text) : Option Site := (m.sites siteId).filter fun s => sees m scope s.tenantId

def findUser (m : Manager) (scope userId : Text) : Option User := (m.users userId).filter fun u => sees m scope u.tenantId

/-- `evaluateAccess(userId, siteId, now)` in the scope of a tenant. -/
def evaluateIn (m : Manager) (now : ℤ) (scope userId siteId : Text) : Decision :=
  evaluateAccess m.intl now ((findUser m scope userId).map User.active) (m.grants scope userId siteId)

inductive CheckReason where
  | ip_not_allowed
  | decision (r : Reason)
  deriving DecidableEq

/-- `access/check`; none is an answer that is not 2xx. -/
def checkAccess (m : Manager) (now : ℤ) (userId siteId clientIp : Text) : Option (Bool × CheckReason) :=
  match scopeOf m (resolveTenantBySite m siteId) with
  | none => none
  | some scope =>
    if userId = [] || siteId = [] then none
    else
      let allowlist := resolvedVendorIpAllowlist m scope
      if allowlist ≠ [] && !ipAllowed m.net allowlist clientIp then some (false, .ip_not_allowed)
      else
        let d := evaluateIn m now scope userId siteId
        some (d.allow, .decision d.reason)

inductive Descriptor where
  | guac (guacdAddress connectorId : Text) (record : Bool)
  | kasm (kasmAddr kasmControlAddr connectorId : Text) (record : Bool)
  deriving DecidableEq

/-- `gateway/descriptor`; none is an answer that is not 2xx. -/
def gatewayDescriptor (m : Manager) (now : ℤ) (userId siteId : Text) : Option Descriptor :=
  match scopeOf m (resolveTenantBySite m siteId) with
  | none => none
  | some scope =>
    if userId = [] || siteId = [] then none
    else match findSite m scope siteId with
      | none => none
      | some site =>
        if site.accessMode ≠ .GATEWAY && site.accessMode ≠ .ISOLATED then none
        else if !(evaluateIn m now scope userId siteId).allow then none
        else
          let record := effectiveSiteRecording m scope site.recordSessions
          if site.accessMode = .ISOLATED then
            if m.isolationEnabled then some (.kasm m.kasmAddr m.kasmControlAddr site.connectorId record) else none
          else if site.hasCredential then some (.guac m.guacdAddr site.connectorId record)
          else none

/-- `gateway/view-authz`, in the scope of the viewer's own tenant. -/
def viewAuthz (m : Manager) (userId siteId : Text) : Bool :=
  match scopeOf m (resolveTenantByUser m userId) with
  | none => false
  | some scope =>
    if userId = [] || siteId = [] then false
    else match findUser m scope userId, findSite m scope siteId with
      | some user, some _ => canReadConsole user.role
      | _, _ => false

structure SiteInfo where
  siteID : Text
  connectorID : Text
  recordSessions : Bool
  consentRequired : Bool

/-- `site/by-host`. -/
def siteByHost (m : Manager) (host : Text) : Option SiteInfo :=
  match m.siteOfHost host with
  | none => none
  | some site =>
    let scope := if m.multiTenant then site.tenantId else DEFAULT_TENANT
    let recordSessions := effectiveSiteRecording m scope site.recordSessions
    some ⟨site.id, site.connectorId, recordSessions, recordSessions && m.recordingConsentRequired scope⟩

/-! The data plane. -/

/-- What a page of a recorded site posts to the recorder's endpoint. -/
inductive RecBody where
  | unreadable
  | oversize
  /-- Not a batch, or a batch without a key. -/
  | malformed
  | batch
  deriving DecidableEq

/-- A header, cookie or query parameter that is missing is the empty text. -/
structure Request where
  method : Text
  path : Text
  /-- `forwardedHost(r)`. -/
  host : Text
  xForwardedFor : Text
  remoteIP : Text
  site : Text
  session : Text
  caSession : Text
  caKasmSite : Text
  caKasmView : Text
  consent : Text
  /-- `Upgrade` is `websocket`. -/
  upgradeWebsocket : Bool
  /-- `upgrade` is one of the tokens of `Connection`. -/
  connectionUpgrade : Bool
  recBody : RecBody

/-- A session in the hub. -/
structure LiveSession where
  siteID : Text
  connID : Text
  connectorID : Text
  guacdAddr : Text
  kasmAddr : Text
  kasmPort : ℤ

structure RlEntry where
  count : ℕ
  reset : ℤ

inductive Call where
  | session
  | byHost
  | check
  | descriptor
  | viewAuthz
  deriving DecidableEq

/-- The data plane when a request comes in, and how its peers answer. -/
structure Plane where
  manager : Manager
  now : ℤ
  /-- `strings.TrimSpace`, and the path as the mux cleans it. -/
  trimSpace : Text → Text
  cleanPath : Text → Text
  gatewayRL : Text → Option RlEntry
  hub : Text → Option LiveSession
  answers : Call → Bool
  online : Text → Bool
  /-- guacd is reached, and the handshake ends in `ready`. -/
  guacReady : Bool
  /-- The status of the broker and the port of the session it opened; none on an error. -/
  broker : Option (ℕ × ℤ)
  /-- The stream for the recording of an isolated session is relayed. -/
  recRelay : Bool
  /-- The recorder's bundle is at hand. -/
  recorderJS : Bool
  upstreamStatus : ℕ

inductive Stream where
  | upstream
  | websocket
  | recwrite
  /-- A relay to an address next to the connector: guacd, the isolated browser or its broker. -/
  | relay (target : Text)
  deriving DecidableEq

structure Dial where
  connectorID : Text
  stream : Stream
  deriving DecidableEq

structure Outcome where
  status : ℕ
  dials : List Dial
  deriving DecidableEq

def refuse (status : ℕ) : Outcome := ⟨status, []⟩

/-- The last hop of `X-Forwarded-For`, which the front proxy appended. -/
def trustedClientIP (p : Plane) (r : Request) : Text :=
  if r.xForwardedFor ≠ [] then p.trimSpace (r.xForwardedFor.reverse.takeWhile (· ≠ ',')).reverse else r.remoteIP

def ask (p : Plane) {α : Type} (c : Call) (answer : Option α) : Option α := if p.answers c then answer else none

def resolveSession (p : Plane) (token : Text) : Option Text :=
  if token = [] then none else (ask p .session (p.manager.sessions token)).filter (· ≠ [])

def consentPath : Text := "/__captivo/consent".toList

def reserved (path : Text) : Bool := "/__captivo/".toList.isPrefixOf path

def serveRecording (p : Plane) (r : Request) (site : SiteInfo) : Outcome :=
  if !site.recordSessions then refuse 404
  else if r.method = "GET".toList && r.path = "/__captivo/rec.js".toList then
    refuse (if p.recorderJS then 200 else 404)
  else if r.method = "POST".toList && r.path = "/__captivo/rec".toList then
    match r.recBody with
    | .unreadable => refuse 404
    | .oversize | .malformed => refuse 204
    | .batch => if p.online site.connectorID then ⟨204, [⟨site.connectorID, .recwrite⟩]⟩ else refuse 204
  else refuse 404

/-- `BrowserProxy.ServeHTTP` once access is allowed. -/
def serveSite (p : Plane) (r : Request) (site : SiteInfo) : Outcome :=
  if site.recordSessions && site.consentRequired && r.path = consentPath then refuse 302
  else if site.recordSessions && site.consentRequired && !reserved r.path && r.consent = [] then refuse 200
  else if reserved r.path then serveRecording p r site
  else if !p.online site.connectorID then refuse 502
  else if r.upgradeWebsocket && r.connectionUpgrade then ⟨p.upstreamStatus, [⟨site.connectorID, .websocket⟩]⟩
  else ⟨p.upstreamStatus, [⟨site.connectorID, .upstream⟩]⟩

/-- `BrowserProxy.ServeHTTP`. -/
def serveProxy (p : Plane) (r : Request) : Outcome :=
  match resolveSession p r.caSession with
  | none => refuse 302
  | some userID =>
    if !p.answers .byHost then refuse 502
    else match siteByHost p.manager r.host with
      | none => refuse 404
      | some site =>
        match ask p .check (checkAccess p.manager p.now userID site.siteID (trustedClientIP p r)) with
        | none => refuse 502
        | some (false, _) => refuse 403
        | some (true, _) => serveSite p r site

def Descriptor.connectorID : Descriptor → Text
  | .guac _ connectorId _ => connectorId
  | .kasm _ _ connectorId _ => connectorId

/-- The descriptor of an isolated site has no guacd address. -/
def Descriptor.guacdAddress : Descriptor → Text
  | .guac guacdAddress _ _ => guacdAddress
  | .kasm _ _ _ _ => []

/-- Up to the relay; the chunks of a recording are streams of their own, opened while it runs. -/
def serveGuacTunnel (p : Plane) (r : Request) : Outcome :=
  if r.site = [] then refuse 400
  else match resolveSession p r.caSession with
    | none => refuse 401
    | some userID =>
      match ask p .descriptor (gatewayDescriptor p.manager p.now userID r.site) with
      | none => refuse 403
      | some d =>
        if !p.online d.connectorID then refuse 502
        else ⟨if p.guacReady then 101 else 502, [⟨d.connectorID, .relay d.guacdAddress⟩]⟩

def kasmSessionAddr (kasmAddr : Text) (port : ℤ) : Text :=
  let host := if ':' ∈ kasmAddr then ((kasmAddr.reverse.dropWhile (· ≠ ':')).drop 1).reverse else kasmAddr
  host ++ ':' :: (toString port).toList

/-- The streams of an isolated session once the broker has opened it: the recording, the
session, the finished recording, the close. -/
def isolatedDials (p : Plane) (connectorID kasmAddr control : Text) (record : Bool) (port : ℤ) : List Dial :=
  let toControl : Dial := ⟨connectorID, .relay control⟩
  (if record then [toControl] else []) ++ [⟨connectorID, .relay (kasmSessionAddr kasmAddr port)⟩] ++
    (if record && p.recRelay then [toControl] else []) ++ [toControl]

def serveKasmTunnel (p : Plane) (r : Request) : Outcome :=
  match resolveSession p r.caSession with
  | none => refuse 401
  | some userID =>
    let siteID := if r.site ≠ [] then r.site else r.caKasmSite
    match ask p .descriptor (gatewayDescriptor p.manager p.now userID siteID) with
    | some (.kasm kasmAddr control connectorID record) =>
      if !p.online connectorID then refuse 502
      else if r.upgradeWebsocket then
        let opened : Dial := ⟨connectorID, .relay control⟩
        match p.broker with
        | none => ⟨502, [opened]⟩
        | some (status, port) =>
          if status = 503 then ⟨503, [opened]⟩
          else if status / 100 ≠ 2 || port = 0 then ⟨502, [opened]⟩
          else ⟨p.upstreamStatus, opened :: isolatedDials p connectorID kasmAddr control record port⟩
      else ⟨p.upstreamStatus, [⟨connectorID, .relay kasmAddr⟩]⟩
    | _ => refuse 403

def serveGuacView (p : Plane) (r : Request) : Outcome :=
  if r.session = [] then refuse 400
  else match resolveSession p r.caSession with
    | none => refuse 401
    | some viewerUserID =>
      match p.hub r.session with
      | none => refuse 404
      | some ls =>
        if !(p.answers .viewAuthz && viewAuthz p.manager viewerUserID ls.siteID) then refuse 403
        else if ls.connID = [] then refuse 409
        else if !p.online ls.connectorID then refuse 502
        else ⟨if p.guacReady then 101 else 502, [⟨ls.connectorID, .relay ls.guacdAddr⟩]⟩

def serveKasmView (p : Plane) (r : Request) : Outcome :=
  match resolveSession p r.caSession with
  | none => refuse 401
  | some viewerUserID =>
    match p.hub (if r.session ≠ [] then r.session else r.caKasmView) with
    | none => refuse 404
    | some ls =>
      if !(p.answers .viewAuthz && viewAuthz p.manager viewerUserID ls.siteID) then refuse 403
      else if ls.kasmAddr = [] then refuse 409
      else if !p.online ls.connectorID then refuse 502
      else
        let backendAddr := if r.upgradeWebsocket then kasmSessionAddr ls.kasmAddr ls.kasmPort else ls.kasmAddr
        ⟨p.upstreamStatus, [⟨ls.connectorID, .relay backendAddr⟩]⟩

inductive Endpoint where
  | guacTunnel
  | kasmTunnel
  | guacView
  | kasmView
  | proxy
  deriving DecidableEq

/-- The mux: a pattern that ends in a slash takes the paths below it. -/
def endpoint (path : Text) : Endpoint :=
  if path = "/guac-tunnel".toList then .guacTunnel
  else if path = "/kasm-tunnel".toList || "/kasm-tunnel/".toList.isPrefixOf path then .kasmTunnel
  else if path = "/guac-view".toList then .guacView
  else if path = "/kasm-view".toList || "/kasm-view/".toList.isPrefixOf path then .kasmView
  else .proxy

def rateAllow (entry : Option RlEntry) (now : ℤ) (limit : ℕ) : Bool :=
  match entry with
  | none => true
  | some e => e.reset < now || e.count < limit

def rlGuard (p : Plane) (r : Request) (next : Outcome) : Outcome :=
  if rateAllow (p.gatewayRL (trustedClientIP p r)) p.now 60 then next else refuse 429

/-- The mux redirects a path that is not clean. -/
def muxRedirects (p : Plane) (r : Request) : Bool := r.method ≠ "CONNECT".toList && p.cleanPath r.path ≠ r.path

def serve (p : Plane) (r : Request) : Outcome :=
  if muxRedirects p r then refuse 301
  else match endpoint r.path with
    | .guacTunnel => rlGuard p r (serveGuacTunnel p r)
    | .kasmTunnel => rlGuard p r (serveKasmTunnel p r)
    | .guacView => rlGuard p r (serveGuacView p r)
    | .kasmView => rlGuard p r (serveKasmView p r)
    | .proxy => serveProxy p r

end Captivo.DataPlane
