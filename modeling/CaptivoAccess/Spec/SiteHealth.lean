import Mathlib.Tactic

/-! The health pass over the sites (`api/cron/site-health`, `lib/cron/for-each-tenant.ts`,
`lib/connector/health.ts`). The sites of each tenant are read, probed and updated, one tenant
after the other; in a tenant's scope only its own rows are seen. -/

namespace Captivo.SiteHealth

/-- A tenant, or none where the deployment has one only. -/
abbrev Scope := Option String

structure ProbeResult where
  probeOk : Bool
  probeDetail : String
  probeLatencyMs : Option ℕ
  deriving DecidableEq

/-- A row of `Site`. The columns of the last probe are null before the first. -/
structure Site where
  id : String
  connectorId : String
  upstreamUrl : Option String
  gateway : Bool
  vaultCredential : Option (String × ℕ)
  probed : Option (ℤ × ProbeResult)
  deriving DecidableEq

structure Target where
  id : String
  connectorId : String
  upstreamUrl : String

structure Outcome where
  id : String
  result : ProbeResult

def toProbe (sites : List Site) : List Target :=
  sites.filterMap fun s => (s.upstreamUrl.filter (· ≠ "")).map fun url => ⟨s.id, s.connectorId, url⟩

def gatewayProbeUrl (targetHost : String) (targetPort : ℕ) : String :=
  let host := if ':' ∈ targetHost.toList then "[" ++ targetHost ++ "]" else targetHost
  "http://" ++ host ++ ":" ++ toString targetPort

def gwToProbe (sites : List Site) : List Target :=
  (sites.filter (·.gateway)).filterMap fun s => s.vaultCredential.map fun vc => ⟨s.id, s.connectorId, gatewayProbeUrl vc.1 vc.2⟩

/-- `probeSite` and `probeGatewaySite`, once the connector has answered with an error or a latency. -/
def probeResult : Except String ℕ → ProbeResult
  | .error e => ⟨false, e, none⟩
  | .ok latencyMs => ⟨true, "reachable", some latencyMs⟩

structure State where
  sites : Scope → List Site
  /-- The tenants whose pending erasures were pushed again. -/
  repushed : List Scope

structure Env where
  multiTenant : Bool
  activeTenants : List String
  distinct : activeTenants.Nodup
  /-- What the connector answers to the probe of that number in a tenant's pass. -/
  probeConnector : Scope → ℕ → Target → Except String ℕ
  now : Scope → ℤ
  /-- The sites that are deleted between the read and the write of a tenant's pass. -/
  deleted : Scope → List String

/-- The batches keep the order of the targets. -/
def Env.outcomes (env : Env) (scope : Scope) (sites : List Site) : List Outcome :=
  (toProbe sites ++ gwToProbe sites).zipIdx.map fun (target, n) => ⟨target.id, probeResult (env.probeConnector scope n target)⟩

def Site.record (now : ℤ) (s : Site) (o : Outcome) : Site := if s.id = o.id then { s with probed := some (now, o.result) } else s

/-- The loop over the outcomes, up to an update that finds no row: it throws. -/
def writeAll (now : ℤ) : List Outcome → List Site → List Site × Bool
  | [], rows => (rows, true)
  | o :: outcomes, rows =>
    if rows.any (·.id = o.id) then writeAll now outcomes (rows.map fun s => s.record now o) else (rows, false)

structure Summary where
  checked : ℕ
  reachable : ℕ
  unreachable : ℕ
  skipped : ℤ

/-- One tenant; none when it throws. In a scope the updates are one transaction. Heartbeat and notifications are in other tables,
and like those of the last phase their errors are caught. -/
def job (env : Env) (scope : Scope) (s : State) : State × Option Summary :=
  let sites := s.sites scope
  let outcomes := env.outcomes scope sites
  let rows := sites.filter fun site => site.id ∉ env.deleted scope
  match writeAll (env.now scope) outcomes rows with
  | (written, true) =>
    let checked := (toProbe sites).length + (gwToProbe sites).length
    (⟨Function.update s.sites scope written, s.repushed ++ [scope]⟩,
      some ⟨checked, outcomes.countP (·.result.probeOk), outcomes.countP (!·.result.probeOk), sites.length - checked⟩)
  | (written, false) => (⟨Function.update s.sites scope (if scope.isSome then rows else written), s.repushed⟩, none)

/-- The loop of `forEachTenantId`, which a job that throws ends. -/
def forEach (env : Env) : List Scope → State → State × Option (List Summary)
  | [], s => (s, some [])
  | scope :: scopes, s =>
    match job env scope s with
    | (s, none) => (s, none)
    | (s, some summary) => (forEach env scopes s).map id (Option.map (summary :: ·))

def Env.scopes (env : Env) : List Scope := if env.multiTenant then env.activeTenants.map some else [none]

/-- The status is 500 where the handler throws. -/
def post (env : Env) (cronAuthorized : Bool) (s : State) : State × ℕ :=
  if cronAuthorized then (forEach env env.scopes s).map id fun results => if results.isSome then 200 else 500 else (s, 401)

end Captivo.SiteHealth
