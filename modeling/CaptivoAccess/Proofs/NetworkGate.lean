import CaptivoAccess.Spec.DataPlane

/-! Which requests from outside a tenant's source-IP allowlist still reach a connector.
The allowlist is a condition of `access/check` alone, and only the proxy asks that route:
a proxied request from outside opens nothing, while the tunnels and the viewers open
their streams as if there were no list. -/

namespace Captivo.DataPlane

open Lib.Dns Captivo.Access

/-! The allowlist. -/

/-- The entry covers the address. -/
def entryCovers (net : Net) (ip entry : Text) : Bool :=
  (addEntry net entry).any fun rule => (net.isIP (normalizeIp ip)).any (net.covers rule (normalizeIp ip))

/-- The list has entries, all of them valid, and the address is in none. -/
structure Outside (net : Net) (allowlist ip : Text) : Prop where
  nonempty : entriesOf net allowlist ≠ []
  valid : validateAllowlist net allowlist = []
  uncovered : ∀ entry ∈ entriesOf net allowlist, entryCovers net ip entry = false

section Allowlist

variable {net : Net} {allowlist ip : Text}

theorem addEntry_of_valid (h : validateAllowlist net allowlist = []) {entry : Text}
    (hm : entry ∈ entriesOf net allowlist) : ∃ rule, addEntry net entry = some rule := by
  have hn := List.filter_eq_nil_iff.mp h entry hm
  rw [Option.isNone_iff_eq_none] at hn
  exact Option.ne_none_iff_exists'.mp hn

theorem build_of_valid (hne : entriesOf net allowlist ≠ []) (h : validateAllowlist net allowlist = []) :
    build net allowlist = some ((entriesOf net allowlist).filterMap (addEntry net)) := by
  have hrules : (entriesOf net allowlist).filterMap (addEntry net) ≠ [] := by
    obtain ⟨entry, hm⟩ := List.exists_mem_of_ne_nil _ hne
    obtain ⟨rule, hr⟩ := addEntry_of_valid h hm
    exact List.ne_nil_of_mem (List.mem_filterMap.mpr ⟨entry, hm, hr⟩)
  simp only [build, if_neg hrules]

/-- A list with entries, all of them valid, allows the addresses that an entry covers. -/
theorem ipAllowed_of_valid (hne : entriesOf net allowlist ≠ []) (h : validateAllowlist net allowlist = []) :
    ipAllowed net allowlist ip = true ↔ ∃ entry ∈ entriesOf net allowlist, entryCovers net ip entry = true := by
  rw [ipAllowed, build_of_valid hne h]
  cases hip : net.isIP (normalizeIp ip) with
  | none => simp [entryCovers, hip]
  | some fam =>
    simp only [entryCovers, hip, List.any_eq_true, List.mem_filterMap, Option.any_some, Option.any_eq_true]
    constructor
    · rintro ⟨rule, ⟨entry, hm, hr⟩, hc⟩
      exact ⟨entry, hm, rule, hr, hc⟩
    · rintro ⟨entry, hm, rule, hr, hc⟩
      exact ⟨rule, ⟨entry, hm, hr⟩, hc⟩

theorem Outside.not_allowed (h : Outside net allowlist ip) : ipAllowed net allowlist ip = false := by
  rw [← Bool.not_eq_true, ipAllowed_of_valid h.nonempty h.valid]
  rintro ⟨entry, hm, hc⟩
  rw [h.uncovered entry hm] at hc
  exact absurd hc (by decide)

theorem Outside.ne_nil (h : Outside net allowlist ip) : allowlist ≠ [] := by
  rintro rfl
  exact h.nonempty rfl

end Allowlist

/-! What the routes of the manager answer. -/

/-- The scope in which a site is served. -/
def siteScope (m : Manager) (site : Site) : Text := if m.multiTenant then site.tenantId else DEFAULT_TENANT

section Routes

variable {m : Manager} {now : ℤ} {userId siteId : Text} {site : Site}

theorem scope_of_site (h : m.sites siteId = some site) :
    scopeOf m (resolveTenantBySite m siteId) = some (siteScope m site) := by
  by_cases hm : m.multiTenant = true <;> simp [scopeOf, resolveTenantBySite, siteScope, h, hm]

theorem findSite_scope (h : m.sites siteId = some site) : findSite m (siteScope m site) siteId = some site := by
  by_cases hm : m.multiTenant = true <;> simp [findSite, siteScope, sees, h, hm]

theorem findSite_none (h : m.sites siteId = none) (scope : Text) : findSite m scope siteId = none := by
  simp [findSite, h]

/-- The gate: outside the allowlist of the site's tenant no grant is looked at. -/
theorem checkAccess_outside {scope clientIp : Text} (hscope : scopeOf m (resolveTenantBySite m siteId) = some scope)
    (hout : Outside m.net (resolvedVendorIpAllowlist m scope) clientIp) (reason : CheckReason) :
    checkAccess m now userId siteId clientIp ≠ some (true, reason) := by
  intro h
  rw [checkAccess, hscope] at h
  simp only [hout.not_allowed, ne_eq, hout.ne_nil, not_false_eq_true, decide_true, Bool.not_false, Bool.and_self,
    if_true] at h
  split_ifs at h
  simp at h

/-- The sites that a tunnel is handed a descriptor of. -/
def Describes (m : Manager) (site : Site) (d : Descriptor) : Prop :=
  let record := effectiveSiteRecording m (siteScope m site) site.recordSessions
  (site.accessMode = .ISOLATED ∧ m.isolationEnabled = true ∧
      d = .kasm m.kasmAddr m.kasmControlAddr site.connectorId record) ∨
    (site.accessMode = .GATEWAY ∧ site.hasCredential = true ∧ d = .guac m.guacdAddr site.connectorId record)

theorem gatewayDescriptor_iff {d : Descriptor} :
    gatewayDescriptor m now userId siteId = some d ↔ userId ≠ [] ∧ siteId ≠ [] ∧ ∃ site, m.sites siteId = some site ∧
      (evaluateIn m now (siteScope m site) userId siteId).allow = true ∧ Describes m site d := by
  cases hs : m.sites siteId with
  | none =>
    simp only [gatewayDescriptor, findSite_none hs]
    split <;> simp
  | some site =>
    rw [gatewayDescriptor, scope_of_site hs]
    simp only [findSite_scope hs, Option.some.injEq, exists_eq_left', Describes]
    by_cases hids : userId = [] ∨ siteId = []
    · simp only [Bool.or_eq_true, decide_eq_true_eq, hids, if_true]
      tauto
    · simp only [Bool.or_eq_true, decide_eq_true_eq, hids, if_false]
      push Not at hids
      cases hmode : site.accessMode <;>
        cases (evaluateIn m now (siteScope m site) userId siteId).allow <;>
        cases m.isolationEnabled <;> cases site.hasCredential <;> simp [hids, eq_comm]

theorem viewAuthz_iff :
    viewAuthz m userId siteId = true ↔ userId ≠ [] ∧ siteId ≠ [] ∧ ∃ user site, m.users userId = some user ∧
      m.sites siteId = some site ∧ (m.multiTenant = true → user.tenantId = site.tenantId) ∧
      canReadConsole user.role = true := by
  cases hu : m.users userId with
  | none => by_cases hm : m.multiTenant = true <;> simp [viewAuthz, scopeOf, resolveTenantByUser, findUser, hu, hm]
  | some user =>
    cases hs : m.sites siteId with
    | none =>
      by_cases hm : m.multiTenant = true <;>
        simp [viewAuthz, scopeOf, resolveTenantByUser, findUser, findSite, hu, hs, hm]
    | some site =>
      -- the viewer is always in their own scope; the site is when the tenants agree
      by_cases hm : m.multiTenant = true
      · by_cases ht : user.tenantId = site.tenantId <;>
          simp [viewAuthz, scopeOf, resolveTenantByUser, findUser, findSite, sees, hu, hs, hm, ht, Option.filter, and_assoc]
      · simp [viewAuthz, scopeOf, findUser, findSite, sees, hu, hs, hm, Option.filter, and_assoc]

end Routes

/-! The entry points. -/

/-- The site that a request is for. -/
def siteOf (p : Plane) (r : Request) : Option Text :=
  match endpoint r.path with
  | .guacTunnel => some r.site
  | .kasmTunnel => some (if r.site ≠ [] then r.site else r.caKasmSite)
  | .guacView => (p.hub r.session).map LiveSession.siteID
  | .kasmView => (p.hub (if r.session ≠ [] then r.session else r.caKasmView)).map LiveSession.siteID
  | .proxy => (siteByHost p.manager r.host).map SiteInfo.siteID

/-- The user holds a grant on a gateway or isolated site that is ready to be served. -/
structure Granted (p : Plane) (userID siteId : Text) (site : Site) : Prop where
  row : siteId ≠ [] ∧ p.manager.sites siteId = some site
  grant : (evaluateIn p.manager p.now (siteScope p.manager site) userID siteId).allow = true
  ready : (site.accessMode = .ISOLATED ∧ p.manager.isolationEnabled = true) ∨
    (site.accessMode = .GATEWAY ∧ site.hasCredential = true)

/-- The user reads the console of the tenant that the site belongs to. -/
def Watches (m : Manager) (userID siteId : Text) : Prop :=
  siteId ≠ [] ∧ ∃ user site, m.users userID = some user ∧ m.sites siteId = some site ∧
    (m.multiTenant = true → user.tenantId = site.tenantId) ∧ canReadConsole user.role = true

/-- The user gets through an entry point that does not ask for the allowlist. -/
inductive Ungated (p : Plane) (r : Request) (userID : Text) : Endpoint → Prop
  | guacTunnel (site : Site) (granted : Granted p userID r.site site) (answered : p.answers .descriptor = true)
      (online : p.online site.connectorId = true) : Ungated p r userID .guacTunnel
  | kasmTunnel (site : Site) (granted : Granted p userID (if r.site ≠ [] then r.site else r.caKasmSite) site)
      (isolated : site.accessMode = .ISOLATED) (answered : p.answers .descriptor = true)
      (online : p.online site.connectorId = true) : Ungated p r userID .kasmTunnel
  | guacView (ls : LiveSession) (named : r.session ≠ []) (live : p.hub r.session = some ls)
      (watches : Watches p.manager userID ls.siteID) (answered : p.answers .viewAuthz = true)
      (joinable : ls.connID ≠ []) (online : p.online ls.connectorID = true) : Ungated p r userID .guacView
  | kasmView (ls : LiveSession) (live : p.hub (if r.session ≠ [] then r.session else r.caKasmView) = some ls)
      (watches : Watches p.manager userID ls.siteID) (answered : p.answers .viewAuthz = true)
      (isolated : ls.kasmAddr ≠ []) (online : p.online ls.connectorID = true) : Ungated p r userID .kasmView

/-- A signed-in user, under the rate limit, gets through an ungated entry point. -/
def EntersUngated (p : Plane) (r : Request) : Prop :=
  muxRedirects p r = false ∧ rateAllow (p.gatewayRL (trustedClientIP p r)) p.now 60 = true ∧
    ∃ userID, resolveSession p r.caSession = some userID ∧ Ungated p r userID (endpoint r.path)

section EntryPoints

variable {p : Plane} {r : Request} {userID siteId : Text}

@[simp] theorem refuse_dials (status : ℕ) : (refuse status).dials = [] := rfl

theorem dials_unless {c : Prop} [Decidable c] {status : ℕ} {next : Outcome} :
    (if c then refuse status else next).dials ≠ [] ↔ ¬c ∧ next.dials ≠ [] := by
  by_cases h : c <;> simp [h]

theorem ask_eq_some {α : Type} {c : Call} {answer : Option α} {a : α} :
    ask p c answer = some a ↔ p.answers c = true ∧ answer = some a := by
  by_cases h : p.answers c = true <;> simp [ask, h]

theorem resolveSession_ne_nil {token : Text} (h : resolveSession p token = some userID) : userID ≠ [] := by
  rw [resolveSession] at h
  split_ifs at h
  simpa using (Option.filter_eq_some_iff.mp h).2

/-- A descriptor comes with a granted site, and is of the transport of that site. -/
theorem ask_descriptor_iff (hu : userID ≠ []) {d : Descriptor} :
    ask p .descriptor (gatewayDescriptor p.manager p.now userID siteId) = some d ↔
      p.answers .descriptor = true ∧ ∃ site, Granted p userID siteId site ∧ Describes p.manager site d := by
  rw [ask_eq_some, gatewayDescriptor_iff]
  refine and_congr_right fun _ => ⟨?_, ?_⟩
  · rintro ⟨-, hs, site, hrow, hallow, hd⟩
    refine ⟨site, ⟨⟨hs, hrow⟩, hallow, ?_⟩, hd⟩
    exact hd.imp (fun h => ⟨h.1, h.2.1⟩) fun h => ⟨h.1, h.2.1⟩
  · rintro ⟨site, hg, hd⟩
    exact ⟨hu, hg.row.1, site, hg.row.2, hg.grant, hd⟩

theorem Granted.describes {site : Site} (h : Granted p userID siteId site) : ∃ d, Describes p.manager site d := by
  rcases h.ready with ⟨hm, hi⟩ | ⟨hm, hc⟩
  · exact ⟨_, Or.inl ⟨hm, hi, rfl⟩⟩
  · exact ⟨_, Or.inr ⟨hm, hc, rfl⟩⟩

theorem Describes.connectorID {m : Manager} {site : Site} {d : Descriptor} (h : Describes m site d) :
    d.connectorID = site.connectorId := by
  rcases h with ⟨-, -, rfl⟩ | ⟨-, -, rfl⟩ <;> rfl

theorem watches_iff (hu : userID ≠ []) : viewAuthz p.manager userID siteId = true ↔ Watches p.manager userID siteId := by
  rw [viewAuthz_iff, Watches]
  exact and_iff_right hu

theorem serveGuacTunnel_dials : (serveGuacTunnel p r).dials ≠ [] ↔
    ∃ userID, resolveSession p r.caSession = some userID ∧ Ungated p r userID .guacTunnel := by
  rw [serveGuacTunnel, dials_unless]
  cases hu : resolveSession p r.caSession with
  | none => simp
  | some userID =>
    simp only [Option.some.injEq, exists_eq_left']
    constructor
    · rintro ⟨-, h⟩
      split at h
      · exact absurd rfl h
      · rename_i d hd
        obtain ⟨answered, site, granted, hdesc⟩ := (ask_descriptor_iff (resolveSession_ne_nil hu)).mp hd
        have online := (dials_unless.mp h).1
        rw [hdesc.connectorID] at online
        exact .guacTunnel site granted answered (by simpa using online)
    · intro h
      cases h with | guacTunnel site granted answered online
      obtain ⟨d, hdesc⟩ := granted.describes
      have hd := (ask_descriptor_iff (resolveSession_ne_nil hu)).mpr ⟨answered, site, granted, hdesc⟩
      simp only [hd, dials_unless, hdesc.connectorID, online]
      exact ⟨granted.row.1, by simp⟩

theorem serveKasmTunnel_dials : (serveKasmTunnel p r).dials ≠ [] ↔
    ∃ userID, resolveSession p r.caSession = some userID ∧ Ungated p r userID .kasmTunnel := by
  rw [serveKasmTunnel]
  cases hu : resolveSession p r.caSession with
  | none => simp
  | some userID =>
    simp only [Option.some.injEq, exists_eq_left']
    constructor
    · intro h
      split at h
      · rename_i kasmAddr control connectorID record hd
        obtain ⟨answered, site, granted, hdesc⟩ := (ask_descriptor_iff (resolveSession_ne_nil hu)).mp hd
        have online : ¬(!p.online connectorID) = true := (dials_unless.mp h).1
        rcases hdesc with ⟨isolated, -, heq⟩ | ⟨-, -, heq⟩
        · obtain ⟨-, -, rfl, -⟩ := Descriptor.kasm.inj heq
          exact .kasmTunnel site granted isolated answered (by simpa using online)
        · cases heq
      · exact absurd rfl h
    · intro h
      cases h with | kasmTunnel site granted isolated answered online
      obtain ⟨d, hdesc⟩ := granted.describes
      have hd := (ask_descriptor_iff (resolveSession_ne_nil hu)).mpr ⟨answered, site, granted, hdesc⟩
      rcases hdesc with ⟨-, -, rfl⟩ | ⟨hmode, -, -⟩
      · simp only [hd, dials_unless, online]
        refine ⟨by simp, ?_⟩
        -- whatever the broker says, it was asked
        split_ifs
        · cases p.broker with
          | none => simp
          | some answer => dsimp only; split_ifs <;> simp
        · simp
      · rw [hmode] at isolated
        cases isolated

theorem serveGuacView_dials : (serveGuacView p r).dials ≠ [] ↔
    ∃ userID, resolveSession p r.caSession = some userID ∧ Ungated p r userID .guacView := by
  rw [serveGuacView, dials_unless]
  cases hu : resolveSession p r.caSession with
  | none => simp
  | some userID =>
    have hw : ∀ siteID, viewAuthz p.manager userID siteID = true ↔ Watches p.manager userID siteID :=
      fun _ => watches_iff (resolveSession_ne_nil hu)
    simp only [Option.some.injEq, exists_eq_left']
    cases hl : p.hub r.session with
    | none =>
      simp only [refuse_dials, ne_eq, not_true_eq_false, and_false, false_iff]
      intro h
      cases h with | guacView ls _ live
      rw [hl] at live
      cases live
    | some ls =>
      simp only [dials_unless, Bool.not_eq_true', Bool.not_eq_false, Bool.and_eq_true, hw]
      constructor
      · rintro ⟨named, ⟨answered, watches⟩, joinable, online, -⟩
        exact .guacView ls named hl watches answered joinable online
      · intro h
        cases h with | guacView ls' named live watches answered joinable online
        obtain rfl := Option.some.inj (hl.symm.trans live)
        exact ⟨named, ⟨answered, watches⟩, joinable, online, by simp⟩

theorem serveKasmView_dials : (serveKasmView p r).dials ≠ [] ↔
    ∃ userID, resolveSession p r.caSession = some userID ∧ Ungated p r userID .kasmView := by
  rw [serveKasmView]
  cases hu : resolveSession p r.caSession with
  | none => simp
  | some userID =>
    have hw : ∀ siteID, viewAuthz p.manager userID siteID = true ↔ Watches p.manager userID siteID :=
      fun _ => watches_iff (resolveSession_ne_nil hu)
    simp only [Option.some.injEq, exists_eq_left']
    cases hl : p.hub (if r.session ≠ [] then r.session else r.caKasmView) with
    | none =>
      simp only [refuse_dials, ne_eq, not_true_eq_false, false_iff]
      intro h
      cases h with | kasmView ls live
      rw [hl] at live
      cases live
    | some ls =>
      simp only [dials_unless, Bool.not_eq_true', Bool.not_eq_false, Bool.and_eq_true, hw]
      constructor
      · rintro ⟨⟨answered, watches⟩, isolated, online, -⟩
        exact .kasmView ls hl watches answered isolated online
      · intro h
        cases h with | kasmView ls' live watches answered isolated online
        obtain rfl := Option.some.inj (hl.symm.trans live)
        exact ⟨⟨answered, watches⟩, isolated, online, by simp⟩

/-- A proxied request reaches a connector only after `access/check` has allowed it. -/
theorem serveProxy_dials (h : (serveProxy p r).dials ≠ []) :
    ∃ userID site reason, siteByHost p.manager r.host = some site ∧
      checkAccess p.manager p.now userID site.siteID (trustedClientIP p r) = some (true, reason) := by
  rw [serveProxy] at h
  cases hu : resolveSession p r.caSession with
  | none => simp [hu] at h
  | some userID =>
    rw [hu] at h
    replace h := (dials_unless.mp h).2
    cases hs : siteByHost p.manager r.host with
    | none => simp [hs] at h
    | some site =>
      simp only [hs] at h
      split at h
      · exact absurd rfl h
      · exact absurd rfl h
      · rename_i reason hc
        exact ⟨userID, site, reason, rfl, (ask_eq_some.mp hc).2⟩

theorem rlGuard_dials {next : Outcome} : (rlGuard p r next).dials ≠ [] ↔
    rateAllow (p.gatewayRL (trustedClientIP p r)) p.now 60 = true ∧ next.dials ≠ [] := by
  rw [rlGuard]
  split_ifs with h <;> simp [h]

theorem serve_dials : (serve p r).dials ≠ [] ↔
    EntersUngated p r ∨ (muxRedirects p r = false ∧ endpoint r.path = .proxy ∧ (serveProxy p r).dials ≠ []) := by
  rw [serve, dials_unless, EntersUngated, Bool.not_eq_true]
  cases endpoint r.path with
  | guacTunnel => simp [rlGuard_dials, ← serveGuacTunnel_dials]
  | kasmTunnel => simp [rlGuard_dials, ← serveKasmTunnel_dials]
  | guacView => simp [rlGuard_dials, ← serveGuacView_dials]
  | kasmView => simp [rlGuard_dials, ← serveKasmView_dials]
  | proxy =>
    have hno : ∀ userID, ¬Ungated p r userID .proxy := nofun
    simp [hno]

end EntryPoints

/-! A workspace with the allowlist `10.0.0.0/8`, a gateway site and a web site, and a
granted vendor. Node's `net` is given on dotted quads. -/

def ofDigits (s : Text) : ℕ := s.foldl (fun n c => n * 10 + (c.toNat - 48)) 0

def quadValue (s : Text) : Option ℕ :=
  let parts := s.splitOn '.'
  if parts.length = 4 && parts.all fun o => isOctet o && ofDigits o ≤ 255 && (o.length = 1 || o.head? ≠ some '0') then
    some (parts.foldl (fun n o => n * 256 + ofDigits o) 0)
  else none

def quadNet : Net where
  Rule := ℕ × ℕ
  isIP s := (quadValue s).map fun _ => .ipv4
  subnet s bits _ := if 0 ≤ bits && bits ≤ 32 then (quadValue s).map fun v => (v, bits.toNat) else none
  address s _ := (quadValue s).map fun v => (v, 32)
  covers rule s _ := (quadValue s).any fun v => v / 2 ^ (32 - rule.2) = rule.1 / 2 ^ (32 - rule.2)
  toInteger s := if s ≠ [] && s.all Char.isDigit then some (ofDigits s) else none
  isSpace := Char.isWhitespace

def trimBlanks (s : Text) : Text := ((s.dropWhile Char.isWhitespace).reverse.dropWhile Char.isWhitespace).reverse

def rdpSite : Site := ⟨"s1".toList, "acme".toList, .GATEWAY, "c1".toList, false, true⟩

def wikiSite : Site := ⟨"s2".toList, "acme".toList, .TRANSPARENT, "c1".toList, false, false⟩

def acmeManager : Manager where
  multiTenant := true
  net := quadNet
  intl := ⟨fun _ => false, fun _ _ => (none, 0)⟩
  trim := trimBlanks
  sites id := [rdpSite, wikiSite].find? fun s => s.id = id
  siteOfHost host := if host = "wiki.acme.example.com".toList then some wikiSite else none
  users id := if id = "u1".toList then some ⟨"acme".toList, true, .VENDOR⟩ else none
  grants _ _ _ := [⟨.ACTIVE, none, none, false, none, none⟩]
  vendorIpAllowlist tenant := if tenant = "acme".toList then some "10.0.0.0/8".toList else none
  recordingMode _ := .per_resource
  recordingConsentRequired _ := false
  sessions token := if token = "t1".toList then some "u1".toList else none
  recordingEnabled := true
  isolationEnabled := true
  guacdAddr := "captivo-guacd:4822".toList
  kasmAddr := "captivo-kasm:6901".toList
  kasmControlAddr := "captivo-kasm:7900".toList

def acmePlane : Plane where
  manager := acmeManager
  now := 0
  trimSpace := trimBlanks
  cleanPath := id
  gatewayRL _ := none
  hub _ := none
  answers _ := true
  online id := id = "c1".toList
  guacReady := true
  broker := none
  recRelay := true
  recorderJS := true
  upstreamStatus := 200

/-- The vendor opens the web site; the front proxy received the request from 203.0.113.7. -/
def wikiRequest : Request where
  method := "GET".toList
  path := "/".toList
  host := "wiki.acme.example.com".toList
  xForwardedFor := "10.1.2.3, 203.0.113.7".toList
  remoteIP := "172.18.0.2".toList
  site := []
  session := []
  caSession := "t1".toList
  caKasmSite := []
  caKasmView := []
  consent := []
  upgradeWebsocket := false
  connectionUpgrade := false
  recBody := .malformed

/-- From the same place, the vendor opens the gateway site. -/
def rdpRequest : Request :=
  { wikiRequest with
    path := "/guac-tunnel".toList, host := "acme.example.com".toList, site := "s1".toList,
    upgradeWebsocket := true, connectionUpgrade := true }

theorem wikiRequest_outside :
    Outside acmeManager.net (resolvedVendorIpAllowlist acmeManager "acme".toList)
      (trustedClientIP acmePlane wikiRequest) :=
  ⟨by decide +kernel, by decide +kernel, by decide +kernel⟩

end Captivo.DataPlane
