import CaptivoAccess.Lib.Dns

/-! Sites and their hostnames in multi-tenant mode: the validation of a site form
(`lib/site/validate.ts`), the host suffix of a tenant (`lib/site/host-suffix.ts`,
`lib/tenant/console-domain.ts`), the check against other tenants
(`lib/site/hostname.ts`) and the routes that write (`api/admin/sites`). -/

namespace Captivo.Site

open Lib.Dns

inductive Value where
  | str (s : Text)
  | bool (b : Bool)
  | num (n : ℚ)
  | other
  deriving DecidableEq

abbrev Body := String → Value

/-- What the JavaScript runtime does with a text: `trim`, `toLowerCase`, `toUpperCase`, the
protocol of `new URL`, which may throw, and `Number`, which may give no number. -/
structure Runtime where
  trim : Text → Text
  lower : Text → Text
  upper : Text → Text
  protocol : Text → Option Text
  number : Text → Option ℚ

inductive AccessMode where
  | transparent
  | gateway
  | isolated
  deriving DecidableEq

structure SiteOpts where
  nativeGateway : Bool
  requireSecret : Bool
  recordingEnabled : Bool
  isolationEnabled : Bool
  hostSuffix : Option Text

/-- The accepted form of each mode. The connection parameters of a remote desktop are kept as sent. -/
inductive SiteValidation where
  | transparent (connectorId name hostname : Text) (customDomain : Bool) (upstreamUrl : Text)
      (description : Option Text) (insecureSkipVerify : Bool) (clipboardMode : Option Text) (recordSessions : Bool)
  | gateway (connectorId name : Text) (description : Option Text) (protocol targetHost : Text) (targetPort : ℚ)
      (username : Text) (secret : Option Text) (recordSessions keystrokeLogging : Bool) (guacParams : Value)
  | isolated (connectorId name : Text) (description : Option Text) (upstreamUrl : Text) (insecureSkipVerify : Bool)
      (recordSessions : Bool) (clipboardMode : Option Text) (watermark : Option Bool) (fileTransferMode : Text)
  deriving DecidableEq

section Validate

variable (rt : Runtime)

/-- `str`: the trimmed string, or nothing for any other value. -/
def str (v : Value) : Text :=
  match v with
  | .str s => rt.trim s
  | _ => []

def nonempty (s : Text) : Option Text := if s = [] then none else some s

def CLIP : List Text := ["allow".toList, "no_copy".toList, "no_paste".toList, "none".toList]

def FT : List Text := ["allow".toList, "no_upload".toList, "no_download".toList, "none".toList]

def PROTOCOLS : List Text := ["RDP".toList, "SSH".toList, "VNC".toList]

def checkUrl (missing : String) (url : Text) : Except String Unit :=
  if url = [] then .error missing
  else match rt.protocol url with
    | none => .error "invalid_upstream_url"
    | some p => if p = "http:".toList ∨ p = "https:".toList then .ok () else .error "invalid_upstream_url"

def clipboardMode (body : Body) : Option Text :=
  if str rt (body "clipboardMode") ∈ CLIP then some (str rt (body "clipboardMode")) else none

/-- The hostname as it was entered, without blanks around it and in lower case. -/
def rawHost (body : Body) : Text := rt.trim (rt.lower (str rt (body "hostname")))

/-- The hostname of a web site and whether the tenant brings its own domain. -/
def siteHostname (body : Body) (hostSuffix : Option Text) : Except String (Text × Bool) :=
  if rawHost rt body = [] then .error "invalid_hostname"
  else if body "customDomain" = .bool true then
    if isFqdn (rawHost rt body) then .ok (rawHost rt body, true) else .error "invalid_hostname"
  else match hostSuffix.filter (· ≠ []) with
    | some suffix => if isLabel (rawHost rt body) then .ok (rawHost rt body ++ suffix, false) else .error "invalid_hostname"
    | none => .ok (rawHost rt body, false)

def recordSessions (body : Body) (opts : SiteOpts) : Bool :=
  opts.recordingEnabled && body "recordSessions" = .bool true

def validateTransparent (body : Body) (opts : SiteOpts) : Except String SiteValidation :=
  match siteHostname rt body opts.hostSuffix with
  | .error e => .error e
  | .ok (hostname, customDomain) =>
    match checkUrl rt "connector_name_upstream_required" (str rt (body "upstreamUrl")) with
    | .error e => .error e
    | .ok () =>
      .ok (.transparent (str rt (body "connectorId")) (str rt (body "name")) hostname customDomain
        (str rt (body "upstreamUrl")) (nonempty (str rt (body "description"))) (body "insecureSkipVerify" = .bool true)
        (clipboardMode rt body) (recordSessions body opts))

/-- `null` where the form leaves it to the tenant's default. -/
def watermark (body : Body) : Option Bool :=
  match body "watermark" with
  | .bool b => some b
  | _ => none

def fileTransferMode (body : Body) : Text :=
  if str rt (body "fileTransferMode") ∈ FT then str rt (body "fileTransferMode") else "none".toList

def validateIsolated (body : Body) (opts : SiteOpts) : Except String SiteValidation :=
  if opts.isolationEnabled = false then .error "isolation_disabled"
  else match checkUrl rt "isolated_url_required" (str rt (body "upstreamUrl")) with
    | .error e => .error e
    | .ok () =>
      .ok (.isolated (str rt (body "connectorId")) (str rt (body "name")) (nonempty (str rt (body "description")))
        (str rt (body "upstreamUrl")) (body "insecureSkipVerify" = .bool true) (recordSessions body opts)
        (clipboardMode rt body) (watermark body) (fileTransferMode rt body))

/-- A whole number from 1 to 65535, given as a number or as a text. -/
def targetPort (body : Body) : Option ℚ :=
  (match body "targetPort" with
    | .num n => some n
    | v => rt.number (str rt v)).filter fun n => n.isInt && 1 ≤ n && n ≤ 65535

def secret (body : Body) : Text :=
  match body "secret" with
  | .str s => s
  | _ => []

def validateGateway (body : Body) (opts : SiteOpts) : Except String SiteValidation :=
  if opts.nativeGateway = false then .error "native_gateway_disabled"
  else if rt.upper (str rt (body "protocol")) ∉ PROTOCOLS then .error "invalid_protocol"
  else if str rt (body "targetHost") = [] ∨ str rt (body "username") = [] then .error "remote_desktop_fields_required"
  else match targetPort rt body with
    | none => .error "invalid_port"
    | some port =>
      if opts.requireSecret = true ∧ secret body = [] then .error "remote_desktop_fields_required"
      else
        .ok (.gateway (str rt (body "connectorId")) (str rt (body "name")) (nonempty (str rt (body "description")))
          (rt.upper (str rt (body "protocol"))) (str rt (body "targetHost")) port (str rt (body "username"))
          (nonempty (secret body)) (recordSessions body opts)
          (recordSessions body opts && body "keystrokeLogging" = .bool true) (body "guacParams"))

def accessMode (body : Body) : AccessMode :=
  if body "accessMode" = .str "GATEWAY".toList then .gateway
  else if body "accessMode" = .str "ISOLATED".toList then .isolated
  else .transparent

def validateSiteInput (body : Body) (opts : SiteOpts) : Except String SiteValidation :=
  if str rt (body "connectorId") = [] ∨ str rt (body "name") = [] then .error "connector_name_required"
  else match accessMode body with
    | .isolated => validateIsolated rt body opts
    | .gateway => validateGateway rt body opts
    | .transparent => validateTransparent rt body opts

end Validate

/-- A tenant that is active and not deleted is the one a console host stands for. -/
structure Tenant where
  id : Text
  slug : Text
  active : Bool
  deriving DecidableEq

/-- The tenants of the platform. A slug is a single label and unique. -/
structure Tenants where
  all : List Tenant
  label : ∀ t ∈ all, isLabel t.slug = true
  slugs : (all.map (·.slug)).Nodup

def RESERVED : List Text :=
  ["manager", "www", "app", "admin", "api", "connect", "sites"].map String.toList

/-- `:\d+$` taken off. -/
def stripPort (host : Text) : Text :=
  let digits := host.reverse.takeWhile fun c => '0' ≤ c && c ≤ '9'
  match host.reverse.drop digits.length with
  | ':' :: rest => if digits = [] then host else rest.reverse
  | _ => host

/-- `\.$` taken off. -/
def stripDot (host : Text) : Text := if host.getLast? = some '.' then host.dropLast else host

/-- The slug of a console host below `domain`. -/
def slugFromHost (rt : Runtime) (host domain : Text) : Option Text :=
  if host = [] ∨ domain = [] then none
  else
    let h := stripDot (stripPort (rt.lower host))
    let suffix := '.' :: rt.lower domain
    if suffix.isSuffixOf h then
      let label := h.take (h.length - suffix.length)
      if label = [] ∨ '.' ∈ label ∨ label ∈ RESERVED then none else some label
    else none

def resolveTenantBySlug (tenants : Tenants) (slug : Text) : Option Tenant :=
  tenants.all.find? fun t => t.slug = slug && t.active

def resolveRequestTenant (rt : Runtime) (tenants : Tenants) (domain host : Text) : Option Tenant :=
  (slugFromHost rt host domain).bind (resolveTenantBySlug tenants)

/-- `.<slug>.<consoleDomain>`, with the slug read from the request. -/
def siteHostSuffix (rt : Runtime) (domain host : Text) : Option Text :=
  (slugFromHost rt host domain).map fun slug => '.' :: slug ++ '.' :: domain

end Captivo.Site
