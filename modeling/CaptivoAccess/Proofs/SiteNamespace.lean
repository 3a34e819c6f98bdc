import CaptivoAccess.Lib.Run
import CaptivoAccess.Spec.SiteRoutes

/-! Whose hostnames a tenant can take. A managed hostname is a label in front of the
acting tenant's own suffix and can be nobody else's. A custom domain is stored as
entered, and only hostnames that are already taken are refused. -/

namespace Captivo.Site

open Lib.Dns Lib.Run

/-- The host of a tenant's console. -/
def consoleHost (t : Tenant) (domain : Text) : Text := t.slug ++ '.' :: domain

/-- No site sits on a console host, and what ends in a tenant's namespace is that tenant's. -/
def Separated (domain : Text) (tenants : Tenants) (s : Sites) : Prop :=
  ∀ row ∈ s.rows, ∀ hostname, row.hostname = some hostname → ∀ t ∈ tenants.all,
    hostname ≠ consoleHost t domain ∧ ('.' :: consoleHost t domain <:+ hostname → row.tenantId = t.id)

section

variable {rt : Runtime} {domain : Text} {tenants : Tenants}

/-- A custom domain entered for a web site is no tenant's console host, and is below one only
if it is the console host of the tenant that enters it. -/
def OwnDomain (rt : Runtime) (domain : Text) (tenants : Tenants) (_ : Sites) (request : Route × Request) : Prop :=
  accessMode request.2.body = .transparent → request.2.body "customDomain" = .bool true →
    ∀ t ∈ tenants.all, rawHost rt request.2.body ≠ consoleHost t domain ∧
      ('.' :: consoleHost t domain <:+ rawHost rt request.2.body →
        slugFromHost rt request.2.host domain = some t.slug)

instance (s : Sites) (request : Route × Request) : Decidable (OwnDomain rt domain tenants s request) :=
  inferInstanceAs (Decidable (accessMode request.2.body = .transparent →
    request.2.body "customDomain" = .bool true → ∀ t ∈ tenants.all, rawHost rt request.2.body ≠ consoleHost t domain ∧
      ('.' :: consoleHost t domain <:+ rawHost rt request.2.body →
        slugFromHost rt request.2.host domain = some t.slug)))

theorem adminTenant_ok {r : Request} {tenant : Tenant} (h : adminTenant rt domain tenants r = .ok tenant) :
    tenant ∈ tenants.all ∧ slugFromHost rt r.host domain = some tenant.slug := by
  unfold adminTenant at h
  split at h
  · cases h
  · rename_i t ht
    split_ifs at h
    obtain rfl := Except.ok.inj h
    obtain ⟨slug, hslug, hfind⟩ := Option.bind_eq_some_iff.mp ht
    have hmem := List.mem_of_find?_eq_some hfind
    have hp := List.find?_some hfind
    simp only [Bool.and_eq_true, decide_eq_true_eq] at hp
    exact ⟨hmem, by rw [hp.1]; exact hslug⟩

theorem tenants_slug_inj {t u : Tenant} (ht : t ∈ tenants.all) (hu : u ∈ tenants.all) (h : t.slug = u.slug) : t = u :=
  List.inj_on_of_nodup_map tenants.slugs ht hu h

variable {body : Body}

theorem validateIsolated_mode {o : SiteOpts} {v : SiteValidation}
    (h : validateIsolated rt body o = .ok v) : ∃ c n d u i rs cm w f, v = .isolated c n d u i rs cm w f := by
  unfold validateIsolated at h
  split_ifs at h
  split at h
  · cases h
  · exact ⟨_, _, _, _, _, _, _, _, _, (Except.ok.inj h).symm⟩

theorem validateGateway_mode {o : SiteOpts} {v : SiteValidation}
    (h : validateGateway rt body o = .ok v) : ∃ c n d p th tp u sec rs k g, v = .gateway c n d p th tp u sec rs k g := by
  unfold validateGateway at h
  cases hp : targetPort rt body with
  | none =>
    rw [hp] at h
    split_ifs at h
  | some port =>
    rw [hp] at h
    split_ifs at h
    exact ⟨_, _, _, _, _, _, _, _, _, _, _, (Except.ok.inj h).symm⟩

theorem validate_transparent {o : SiteOpts} {c n hostname u : Text} {custom i rs : Bool}
    {d cm : Option Text} (h : validateSiteInput rt body o = .ok (.transparent c n hostname custom u d i cm rs)) :
    accessMode body = .transparent ∧ siteHostname rt body o.hostSuffix = .ok (hostname, custom) := by
  unfold validateSiteInput at h
  split_ifs at h
  split at h
  · obtain ⟨_, _, _, _, _, _, _, _, _, hv⟩ := validateIsolated_mode h
    cases hv
  · obtain ⟨_, _, _, _, _, _, _, _, _, _, _, hv⟩ := validateGateway_mode h
    cases hv
  · rename_i hm
    refine ⟨hm, ?_⟩
    unfold validateTransparent at h
    split at h
    · cases h
    · rename_i host cust hh
      split at h
      · cases h
      · simp only [Except.ok.injEq, SiteValidation.transparent.injEq] at h
        obtain ⟨-, -, rfl, rfl, -⟩ := h
        exact hh

theorem siteHostname_ok {suffix hostname : Text} {custom : Bool} (hs : suffix ≠ [])
    (h : siteHostname rt body (some suffix) = .ok (hostname, custom)) :
    (custom = true ∧ body "customDomain" = .bool true ∧ hostname = rawHost rt body ∧ isFqdn hostname = true) ∨
      custom = false ∧ ∃ label, hostname = label ++ suffix := by
  unfold siteHostname at h
  rw [Option.filter_some_pos (by simpa using hs)] at h
  split_ifs at h with hnil hcust hfq hl
  · simp only [Except.ok.injEq, Prod.mk.injEq] at h
    exact Or.inl ⟨h.2.symm, hcust, h.1.symm, by rw [← h.1]; exact hfq⟩
  · simp only [Except.ok.injEq, Prod.mk.injEq] at h
    exact Or.inr ⟨h.2.symm, _, h.1.symm⟩

/-- Where a row of the table can come from: it keeps the host of an older row of its tenant, it has
no host, or it has the host of the request. -/
def FromRequest (rt : Runtime) (domain : Text) (tenant : Tenant) (s : Sites) (r : Request) (row : SiteRow) : Prop :=
  (∃ old ∈ s.rows, old.tenantId = row.tenantId ∧ old.hostname = row.hostname) ∨ row.hostname = none ∨
    ∃ hostname custom, accessMode r.body = .transparent ∧
      siteHostname rt r.body (siteHostSuffix rt domain r.host) = .ok (hostname, custom) ∧
      row.tenantId = tenant.id ∧ row.hostname = some hostname

variable {tenant : Tenant} {s : Sites} {r : Request}

variable {row : SiteRow}

theorem fromRequest_old (h : row ∈ s.rows) : FromRequest rt domain tenant s r row :=
  Or.inl ⟨row, h, rfl, rfl⟩

theorem fromRequest_create {hostname : Option Text} {custom vault : Bool} {mode : AccessMode}
    (h : row ∈ (s.create tenant.id hostname custom mode vault).rows)
    (hnew : FromRequest rt domain tenant s r ⟨s.next, tenant.id, hostname, custom, mode, vault⟩) :
    FromRequest rt domain tenant s r row := by
  rcases List.mem_append.mp h with h | h
  · exact fromRequest_old h
  · rwa [List.mem_singleton.mp h]

theorem fromRequest_update {id : ℕ} {f : SiteRow → SiteRow} (h : row ∈ (s.update tenant id f).rows)
    (hf : ∀ x, x.tenantId = tenant.id → FromRequest rt domain tenant s r (f x)) :
    FromRequest rt domain tenant s r row := by
  obtain ⟨x, hx, rfl⟩ := List.mem_map.mp h
  split_ifs with his
  · simp only [SiteRow.is, Bool.and_eq_true, decide_eq_true_eq] at his
    exact hf x his.2
  · exact fromRequest_old hx

theorem postSite_rows (h : row ∈ (postSite rt domain s tenant r).1.rows) :
    FromRequest rt domain tenant s r row := by
  unfold postSite at h
  split at h
  · exact fromRequest_old h
  · rename_i v hv
    split_ifs at h
    · exact fromRequest_old h
    · exact fromRequest_old h
    · split at h
      · exact fromRequest_old h
      · split at h
        · obtain ⟨hm, hh⟩ := validate_transparent hv
          split_ifs at h
          · exact fromRequest_old h
          · exact fromRequest_old h
          · exact fromRequest_create h (Or.inr (Or.inr ⟨_, _, hm, hh, rfl, rfl⟩))
        · exact fromRequest_create h (Or.inr (Or.inl rfl))
        · exact fromRequest_create h (Or.inr (Or.inl rfl))

theorem patchSite_rows {id : ℕ} (h : row ∈ (patchSite rt domain s tenant id r).1.rows) :
    FromRequest rt domain tenant s r row := by
  unfold patchSite at h
  split at h
  · exact fromRequest_old h
  · rename_i v hv
    split_ifs at h
    · exact fromRequest_old h
    · split at h
      · exact fromRequest_old h
      · split at h
        · exact fromRequest_old h
        · split at h
          · obtain ⟨hm, hh⟩ := validate_transparent hv
            split_ifs at h
            · exact fromRequest_old h
            · exact fromRequest_old h
            · exact fromRequest_update h fun x hx => Or.inr (Or.inr ⟨_, _, hm, hh, hx, rfl⟩)
          · exact fromRequest_update h fun x _ => Or.inr (Or.inl rfl)
          · split_ifs at h
            · exact fromRequest_old h
            · exact fromRequest_update h fun x _ => Or.inr (Or.inl rfl)

theorem serve_rows {request : Route × Request}
    (h : row ∈ (serve rt domain tenants s request).1.rows) :
    row ∈ s.rows ∨ ∃ tenant, adminTenant rt domain tenants request.2 = .ok tenant ∧
      FromRequest rt domain tenant s request.2 row := by
  unfold serve at h
  split at h
  · exact Or.inl h
  · rename_i tenant ht
    right
    refine ⟨tenant, ht, ?_⟩
    split at h
    · exact postSite_rows h
    · exact patchSite_rows h
    · unfold deleteSite at h
      split at h
      · exact fromRequest_old h
      · exact fromRequest_old (List.mem_of_mem_filter h)

/-- A managed hostname is in the namespace of the acting tenant and of no other. -/
theorem managed_separated {label slug : Text} {t : Tenant} (ht : t ∈ tenants.all) (hslug : '.' ∉ slug) :
    label ++ ('.' :: slug ++ '.' :: domain) ≠ consoleHost t domain ∧
      ('.' :: consoleHost t domain <:+ label ++ ('.' :: slug ++ '.' :: domain) → slug = t.slug) := by
  have hdot := isLabel_no_dot (tenants.label t ht)
  have hassoc : label ++ ('.' :: slug ++ '.' :: domain) = label ++ '.' :: slug ++ '.' :: domain := by simp
  rw [hassoc]
  constructor
  · intro he
    have hs : label ++ '.' :: slug = t.slug := List.append_cancel_right he
    exact hdot (by rw [← hs]; simp)
  · rintro ⟨x, hx⟩
    have hs : x ++ '.' :: t.slug = label ++ '.' :: slug := by
      have hd : x ++ '.' :: t.slug ++ '.' :: domain = label ++ '.' :: slug ++ '.' :: domain := by
        rw [← hx]
        simp [consoleHost]
      exact List.append_cancel_right hd
    exact (last_label_unique hdot hslug hs).2.symm

theorem separated_step (s : Sites) (request : Route × Request) (h : Separated domain tenants s)
    (ho : OwnDomain rt domain tenants s request) : Separated domain tenants (serve rt domain tenants s request).1 := by
  intro row hrow hostname hhost t ht
  rcases serve_rows hrow with hold | ⟨tenant, hadmin, ⟨old, hold, hid, hh⟩ | hnone | ⟨host, custom, hm, hh, hid, hrh⟩⟩
  · exact h row hold hostname hhost t ht
  · have := h old hold hostname (by rw [hh, hhost]) t ht
    rwa [hid] at this
  · rw [hnone] at hhost
    cases hhost
  · obtain ⟨htm, hslug⟩ := adminTenant_ok hadmin
    rw [hrh, Option.some.injEq] at hhost
    subst hhost
    rw [hid]
    -- it is enough that the acting tenant's slug is the one of the namespace
    have key : host ≠ consoleHost t domain ∧ ('.' :: consoleHost t domain <:+ host → tenant.slug = t.slug) := by
      rw [siteHostSuffix, hslug, Option.map_some] at hh
      rcases siteHostname_ok (by simp) hh with ⟨-, hcust, rfl, -⟩ | ⟨-, label, rfl⟩
      · obtain ⟨h1, h2⟩ := ho hm hcust t ht
        exact ⟨h1, fun hs => Option.some.inj (hslug.symm.trans (h2 hs))⟩
      · exact managed_separated ht (isLabel_no_dot (tenants.label tenant htm))
    refine ⟨key.1, fun hs => ?_⟩
    rw [tenants_slug_inj htm ht (key.2 hs)]

end

/-- In every sequence of requests whose custom domains keep to their tenant's own part of the
console domain, no site sits on a console host or in another tenant's namespace. -/
theorem site_hosts_separated (rt : Runtime) (domain : Text) (tenants : Tenants) (requests : List (Route × Request))
    (h : Meets (fun s r => (serve rt domain tenants s r).1) (OwnDomain rt domain tenants) ⟨[], 0⟩ requests) :
    Separated domain tenants (requests.foldl (fun s r => (serve rt domain tenants s r).1) ⟨[], 0⟩) :=
  invariant separated_step (fun row hrow => absurd hrow (by simp)) h

/-- The runtime on ASCII texts without blanks around them. -/
def asciiRuntime : Runtime where
  trim := id
  lower := List.map Char.toLower
  upper := List.map Char.toUpper
  protocol u := if '/' ∈ u then some (u.takeWhile (· ≠ ':') ++ [':']) else none
  number _ := none

def cloud : Text := "cloud.example".toList

/-- Two tenants. -/
def acmeAndGlobex : Tenants where
  all := [⟨"t1".toList, "acme".toList, true⟩, ⟨"t2".toList, "globex".toList, true⟩]
  label := by decide +kernel
  slugs := by decide +kernel

/-- A site form filled in by an administrator of the tenant with the slug. -/
def siteForm (slug hostname : String) (custom : Bool) : Route × Request where
  fst := .post
  snd :=
    { host := slug.toList ++ '.' :: cloud, signedIn := true, mayConfigure := true
      body := fun k =>
        if k = "hostname" then .str hostname.toList
        else if k = "customDomain" then .bool custom
        else if k = "upstreamUrl" then .str "http://10.0.0.5/".toList
        else if k = "connectorId" ∨ k = "name" then .str k.toList
        else .other
      nativeGateway := false, recordingEnabled := false, isolationEnabled := false, maxSites := none
      connectorKnown := true, logoError := none }

/-- A managed site of one tenant and a domain of its own of the other. -/
theorem site_hosts_separated_wiki_portal :
    Meets (fun s r => (serve asciiRuntime cloud acmeAndGlobex s r).1) (OwnDomain asciiRuntime cloud acmeAndGlobex)
      ⟨[], 0⟩ [siteForm "acme" "wiki" false, siteForm "globex" "portal.globex.com" true] ∧
    Separated cloud acmeAndGlobex
      ([siteForm "acme" "wiki" false, siteForm "globex" "portal.globex.com" true].foldl
        (fun s r => (serve asciiRuntime cloud acmeAndGlobex s r).1) ⟨[], 0⟩) := by
  have h : Meets (fun s r => (serve asciiRuntime cloud acmeAndGlobex s r).1)
      (OwnDomain asciiRuntime cloud acmeAndGlobex) ⟨[], 0⟩
      [siteForm "acme" "wiki" false, siteForm "globex" "portal.globex.com" true] := by
    refine ⟨?_, ?_, trivial⟩ <;> decide +kernel
  exact ⟨h, site_hosts_separated asciiRuntime cloud acmeAndGlobex _ h⟩

/-- As custom domains, one tenant takes the other's console host and a host below it. -/
theorem custom_domain_takes_console_host :
    let s := [siteForm "globex" "acme.cloud.example" true, siteForm "globex" "wiki.acme.cloud.example" true].foldl
      (fun s r => (serve asciiRuntime cloud acmeAndGlobex s r).1) ⟨[], 0⟩
    s.rows = [⟨0, "t2".toList, some "acme.cloud.example".toList, true, .transparent, false⟩,
      ⟨1, "t2".toList, some "wiki.acme.cloud.example".toList, true, .transparent, false⟩] ∧
    ¬ Separated cloud acmeAndGlobex s := by
  intro s
  have hrows : s.rows = [⟨0, "t2".toList, some "acme.cloud.example".toList, true, .transparent, false⟩,
      ⟨1, "t2".toList, some "wiki.acme.cloud.example".toList, true, .transparent, false⟩] := by decide +kernel
  refine ⟨hrows, fun h => ?_⟩
  have hfirst := h ⟨0, "t2".toList, some "acme.cloud.example".toList, true, .transparent, false⟩
    (by rw [hrows]; exact List.mem_cons_self) _ rfl ⟨"t1".toList, "acme".toList, true⟩ List.mem_cons_self
  exact hfirst.1 (by decide +kernel)

end Captivo.Site
