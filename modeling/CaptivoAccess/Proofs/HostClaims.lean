import CaptivoAccess.Lib.Claims
import CaptivoAccess.Spec.SiteThreads
import CaptivoAccess.Proofs.SiteNamespace

/-! Which tenant a hostname belongs to. Two managed hostnames of different tenants differ by
the slug in them, and two custom ones are kept apart by an index. Between a managed and a
custom one there is only the check before the write, and requests of two tenants that
overlap both pass it. Where none passes its check while another one, with the same
hostname, has passed its own and not written yet, each hostname has one tenant. -/

namespace Captivo.Site

open Lib.Dns Lib.Threads

/-- Each hostname is held by the sites of at most one tenant. -/
def OneTenant (s : Sites) : Prop :=
  ∀ r ∈ s.rows, ∀ r' ∈ s.rows, ∀ hostname, r.hostname = some hostname → r'.hostname = some hostname → r.tenantId = r'.tenantId

structure HostClaim where
  tenantId : Text
  hostname : Text
  customDomain : Bool
  deriving DecidableEq

/-- A request that found its hostname free of other tenants holds it until it writes. Two custom
hostnames do not conflict: the index is checked with the write. -/
def hostClaims : Claims Sites SiteStmt HostClaim where
  held
    | .create tenantId (some hostname) customDomain _ _ => some ⟨tenantId, hostname, customDomain⟩
    | .setHost tenant _ hostname customDomain => some ⟨tenant.id, hostname, customDomain⟩
    | _ => none
  Free k s := ∀ r ∈ s.rows, r.hostname = some k.hostname → r.tenantId = k.tenantId ∨ (r.customDomain = true ∧ k.customDomain = true)
  Conflict k k' := k.hostname = k'.hostname ∧ k.tenantId ≠ k'.tenantId ∧ ¬ (k.customDomain = true ∧ k'.customDomain = true)
  symm _ _ h := ⟨h.1.symm, h.2.1.symm, fun hc => h.2.2 hc.symm⟩

/-- What a hostname looks like: a custom one is a full name, a managed one is below the tenant's console host. -/
def Formed (domain : Text) (tenants : Tenants) (k : HostClaim) : Prop :=
  (k.customDomain = true ∧ isFqdn k.hostname = true) ∨
    (k.customDomain = false ∧ ∃ t ∈ tenants.all, t.id = k.tenantId ∧ ∃ label, k.hostname = label ++ ('.' :: t.slug ++ '.' :: domain))

/-- The rows have ids of their own, a hostname as it should look, and each hostname one tenant. -/
structure Hosts (domain : Text) (tenants : Tenants) (s : Sites) : Prop where
  ids : (s.rows.map (·.id)).Nodup
  fresh : ∀ r ∈ s.rows, r.id < s.next
  formed : ∀ r ∈ s.rows, ∀ hostname, r.hostname = some hostname → Formed domain tenants ⟨r.tenantId, hostname, r.customDomain⟩
  one : OneTenant s

/-! Statements. -/

section Stmt

variable {s : Sites} {stmt : SiteStmt} {k : HostClaim}

/-- The row has the hostname that is claimed. -/
def SiteRow.Holds (row : SiteRow) (k : HostClaim) : Prop :=
  row.tenantId = k.tenantId ∧ row.hostname = some k.hostname ∧ row.customDomain = k.customDomain

theorem update_ids {tenant : Tenant} {id : ℕ} {f : SiteRow → SiteRow} (hf : ∀ r, (f r).id = r.id) :
    (s.update tenant id f).rows.map (·.id) = s.rows.map (·.id) := by
  rw [Sites.update, List.map_map]
  refine List.map_congr_left fun r _ => ?_
  simp only [Function.comp_apply]
  split_ifs
  · exact hf r
  · rfl

theorem is_iff {r : SiteRow} {tenant : Tenant} {id : ℕ} : r.is tenant id = true ↔ r.id = id ∧ r.tenantId = tenant.id := by
  simp [SiteRow.is]

theorem of_not_uniqueViolation {self : Option ℕ} {tenantId hostname : Text} {custom : Bool}
    (h : ¬ uniqueViolation s self tenantId hostname custom = true) {r : SiteRow} (hr : r ∈ s.rows) (hself : some r.id ≠ self)
    (hhost : r.hostname = some hostname) (hcustom : r.customDomain = true) : ¬ custom = true := by
  intro hc
  refine h (List.any_eq_true.2 ⟨r, hr, ?_⟩)
  simp [hself, hhost, hcustom, hc]

/-- Where a row comes from: it was there, it has no hostname, or it has the one that was claimed and
the index lets no other tenant have a custom one like it. -/
theorem apply_rows (hids : (s.rows.map (·.id)).Nodup) {row : SiteRow} (hrow : row ∈ (stmt.apply s).rows) :
    row ∈ s.rows ∨ row.hostname = none ∨ ∃ k ∈ hostClaims.held stmt, row.Holds k ∧
      ∀ other ∈ (stmt.apply s).rows, other.hostname = some k.hostname → other.customDomain = true → k.customDomain = true →
        other.tenantId = k.tenantId := by
  cases stmt with
  | read => exact Or.inl hrow
  | create tenantId hostname custom mode vault =>
    simp only [SiteStmt.apply] at hrow ⊢
    split_ifs at hrow ⊢ with hviol
    · exact Or.inl hrow
    · rcases List.mem_append.1 hrow with hold | hnew
      · exact Or.inl hold
      · rw [List.mem_singleton] at hnew
        subst hnew
        cases hostname with
        | none => exact Or.inr (Or.inl rfl)
        | some hostname =>
          refine Or.inr (Or.inr ⟨⟨tenantId, hostname, custom⟩, rfl, ⟨rfl, rfl, rfl⟩, ?_⟩)
          intro other hother hhost hcustom hk
          rcases List.mem_append.1 hother with hother | hother
          · exact absurd hk (of_not_uniqueViolation hviol hother nofun hhost hcustom)
          · rw [List.mem_singleton.1 hother]
  | setHost tenant id hostname custom =>
    simp only [SiteStmt.apply] at hrow ⊢
    split_ifs at hrow ⊢ with hviol
    · exact Or.inl hrow
    · obtain ⟨x, hx, hrx⟩ := List.mem_map.1 hrow
      split_ifs at hrx with his
      · obtain ⟨hxid, hxt⟩ := is_iff.1 his
        refine Or.inr (Or.inr ⟨⟨tenant.id, hostname, custom⟩, rfl, ?_, ?_⟩)
        · rw [← hrx]
          exact ⟨hxt, rfl, rfl⟩
        · intro other hother hhost hcustom hk
          obtain ⟨y, hy, hoy⟩ := List.mem_map.1 hother
          split_ifs at hoy with hisy
          · rw [← hoy]
            exact (is_iff.1 hisy).2
          · subst hoy
            -- the row that the index leaves out is the one that is updated
            have hne : some y.id ≠ some id := by
              intro he
              have hyx : y = x := List.inj_on_of_nodup_map hids hy hx ((Option.some.inj he).trans hxid.symm)
              exact hisy (hyx ▸ his)
            exact absurd hk (of_not_uniqueViolation hviol hy hne hhost hcustom)
      · exact Or.inl (hrx ▸ hx)
  | clearHost tenant id mode vault =>
    obtain ⟨x, hx, hrx⟩ := List.mem_map.1 hrow
    split_ifs at hrx
    · rw [← hrx]
      exact Or.inr (Or.inl rfl)
    · exact Or.inl (hrx ▸ hx)
  | delete tenant id => exact Or.inl (List.mem_of_mem_filter hrow)

theorem apply_fresh (stmt : SiteStmt) (hids : (s.rows.map (·.id)).Nodup) (hfresh : ∀ r ∈ s.rows, r.id < s.next) :
    ((stmt.apply s).rows.map (·.id)).Nodup ∧ ∀ r ∈ (stmt.apply s).rows, r.id < (stmt.apply s).next := by
  have hupdate : ∀ tenant id (f : SiteRow → SiteRow), (∀ r, (f r).id = r.id) →
      ((s.update tenant id f).rows.map (·.id)).Nodup ∧ ∀ r ∈ (s.update tenant id f).rows, r.id < s.next := by
    intro tenant id f hf
    have hmap : (s.update tenant id f).rows.map (·.id) = s.rows.map (·.id) := update_ids hf
    refine ⟨hmap ▸ hids, fun r hr => ?_⟩
    have hmem := List.mem_map_of_mem (f := (·.id)) hr
    rw [hmap] at hmem
    obtain ⟨x, hx, hxr⟩ := List.mem_map.1 hmem
    exact hxr ▸ hfresh x hx
  cases stmt with
  | read => exact ⟨hids, hfresh⟩
  | create tenantId hostname custom mode vault =>
    simp only [SiteStmt.apply]
    split_ifs
    · exact ⟨hids, hfresh⟩
    · simp only [Sites.create, List.map_append, List.map_cons, List.map_nil, List.mem_append, List.mem_singleton]
      refine ⟨hids.append (List.nodup_singleton _) ?_, ?_⟩
      · intro id hid hnext
        obtain ⟨r, hr, hri⟩ := List.mem_map.1 hid
        have := hfresh r hr
        rw [List.mem_singleton] at hnext
        omega
      · intro r hr
        rcases hr with hr | hr
        · exact Nat.lt_succ_of_lt (hfresh r hr)
        · rw [hr]
          exact Nat.lt_succ_self _
  | setHost tenant id hostname custom =>
    simp only [SiteStmt.apply]
    split_ifs
    · exact ⟨hids, hfresh⟩
    · exact hupdate tenant id _ fun _ => rfl
  | clearHost tenant id mode vault => exact hupdate tenant id _ fun _ => rfl
  | delete tenant id =>
    exact ⟨(List.filter_sublist.map _).nodup hids, fun r hr => hfresh r (List.mem_of_mem_filter hr)⟩

/-- Every other claim stays free, unless it conflicts with the one that is written. -/
theorem free_apply (hids : (s.rows.map (·.id)).Nodup) (hfree : hostClaims.Free k s)
    (hapart : ∀ k' ∈ hostClaims.held stmt, ¬ hostClaims.Conflict k k') : hostClaims.Free k (stmt.apply s) := by
  intro row hrow hhost
  rcases apply_rows hids hrow with hold | hnone | ⟨k', hk', ⟨ht, hh, hc⟩, -⟩
  · exact hfree row hold hhost
  · rw [hnone] at hhost
    cases hhost
  · have heq : k.hostname = k'.hostname := Option.some.inj (hhost.symm.trans hh)
    rw [ht, hc]
    by_contra hnot
    rw [not_or] at hnot
    exact hapart k' hk' ⟨heq, fun he => hnot.1 he.symm, fun hb => hnot.2 hb.symm⟩

theorem hosts_apply {domain : Text} {tenants : Tenants} (h : Hosts domain tenants s)
    (hfree : ∀ k ∈ hostClaims.held stmt, hostClaims.Free k s) (hformed : ∀ k ∈ hostClaims.held stmt, Formed domain tenants k) :
    Hosts domain tenants (stmt.apply s) := by
  obtain ⟨hids, hfresh⟩ := apply_fresh stmt h.ids h.fresh
  refine ⟨hids, hfresh, ?_, ?_⟩
  · intro row hrow hostname hhost
    rcases apply_rows h.ids hrow with hold | hnone | ⟨k, hk, ⟨ht, hh, hc⟩, -⟩
    · exact h.formed row hold hostname hhost
    · rw [hnone] at hhost
      cases hhost
    · rw [ht, hc, Option.some.inj (hhost.symm.trans hh)]
      exact hformed k hk
  · -- whoever has the hostname of a row that is new is the tenant that claimed it
    have hnew : ∀ k ∈ hostClaims.held stmt, (∀ other ∈ (stmt.apply s).rows, other.hostname = some k.hostname →
        other.customDomain = true → k.customDomain = true → other.tenantId = k.tenantId) →
        ∀ other ∈ (stmt.apply s).rows, other.hostname = some k.hostname → other.tenantId = k.tenantId := by
      intro k hk hindex other hother hhost
      rcases apply_rows h.ids hother with hold | hnone | ⟨k', hk', ⟨ht, -, -⟩, -⟩
      · rcases hfree k hk other hold hhost with heq | hboth
        · exact heq
        · exact hindex other hother hhost hboth.1 hboth.2
      · rw [hnone] at hhost
        cases hhost
      · rw [ht, Option.some.inj (hk'.symm.trans hk)]
    intro r hr r' hr' hostname hhost hhost'
    rcases apply_rows h.ids hr with hold | hnone | ⟨k, hk, ⟨ht, hh, -⟩, hindex⟩
    · rcases apply_rows h.ids hr' with hold' | hnone | ⟨k, hk, ⟨ht, hh, -⟩, hindex⟩
      · exact h.one r hold r' hold' hostname hhost hhost'
      · rw [hnone] at hhost'
        cases hhost'
      · rw [ht]
        exact hnew k hk hindex r hr (by rw [hhost, ← hhost', hh])
    · rw [hnone] at hhost
      cases hhost
    · rw [ht]
      exact (hnew k hk hindex r' hr' (by rw [hhost', ← hhost, hh])).symm

end Stmt

/-! A request that nothing interrupts does what the route does. -/

section Alone

variable (rt : Runtime) (domain : Text) (tenants : Tenants) (tenant : Tenant) (s : Sites)

theorem checkHost_alone (hostname : Text) (write : SiteStmt) :
    (checkHost rt tenant hostname write).alone s = if crossTenantHostnameTaken rt s tenant hostname then s else write.apply s := by
  simp only [checkHost, exec, Thread.alone, SiteStmt.apply]
  split_ifs <;> rfl

theorem postThread_alone (r : Request) : (postThread rt domain tenant r).alone s = (postSite rt domain s tenant r).1 := by
  unfold postThread postSite
  cases hv : validateSiteInput rt r.body (opts rt domain r true) with
  | error e => rfl
  | ok v =>
    simp only [exec, Thread.alone, SiteStmt.apply]
    split_ifs with hlimit hconnector hlogo
    · rfl
    · rfl
    · obtain ⟨e, he⟩ := Option.isSome_iff_exists.1 hlogo
      rw [he]
      rfl
    · rw [Option.not_isSome_iff_eq_none.1 hlogo]
      cases v with
      | transparent c n hostname custom u d i cm rs =>
        simp only [checkHost_alone, SiteStmt.apply, Option.any_some]
        split_ifs <;> rfl
      | isolated => rfl
      | gateway => rfl

theorem patchThread_alone (id : ℕ) (r : Request) :
    (patchThread rt domain tenant id r).alone s = (patchSite rt domain s tenant id r).1 := by
  unfold patchThread patchSite
  cases hv : validateSiteInput rt r.body (opts rt domain r false) with
  | error e => rfl
  | ok v =>
    by_cases hconnector : r.connectorKnown = false
    · simp only [if_pos hconnector, Thread.alone]
    · simp only [if_neg hconnector, exec, Thread.alone, SiteStmt.apply]
      cases hfind : s.find tenant id with
      | none => rfl
      | some row =>
        cases hlogo : r.logoError with
        | some e => rfl
        | none =>
          cases v with
          | transparent c n hostname custom u d i cm rs =>
            simp only [Option.isNone_some, Option.isSome_none, Bool.false_eq_true, if_false, checkHost_alone, SiteStmt.apply]
            split_ifs <;> rfl
          | isolated => rfl
          | gateway c n d p th tp u secret rs k g =>
            simp only [Option.isNone_some, Option.isSome_none, Bool.false_eq_true, if_false, Thread.alone, hfind, Option.all_some,
              decide_eq_true_eq]
            split_ifs <;> rfl

theorem siteThread_alone (request : Route × Request) :
    (siteThread rt domain tenants request).alone s = (serve rt domain tenants s request).1 := by
  obtain ⟨route, r⟩ := request
  unfold siteThread serve
  cases hadmin : adminTenant rt domain tenants r with
  | error e => rfl
  | ok tenant =>
    cases route with
    | post => exact postThread_alone rt domain tenant s r
    | patch id => exact patchThread_alone rt domain tenant s id r
    | delete id =>
      simp only [deleteThread, deleteSite, exec, Thread.alone, SiteStmt.apply]
      cases hfind : s.find tenant id with
      | none => rfl
      | some row => rfl

end Alone

/-! Threads. -/

section Threads

variable {rt : Runtime} {domain : Text} {tenants : Tenants} {tenant : Tenant} {s : Sites} {k : HostClaim}

/-- What the JavaScript runtime does with a name that is already in the form it stores. -/
def KeepsNames (rt : Runtime) : Prop := ∀ hostname, isFqdn hostname = true → rt.trim (rt.lower hostname) = hostname

theorem resolve_of_one (h : OneTenant s) {host : Text} {r : SiteRow} (hr : r ∈ s.rows)
    (hhost : r.hostname = some (rt.trim (rt.lower host))) : resolveTenantByHostname rt s host = some r.tenantId := by
  unfold resolveTenantByHostname
  cases hfind : s.rows.find? fun r => r.hostname = some (rt.trim (rt.lower host)) with
  | none => exact absurd (decide_eq_true hhost) (List.find?_eq_none.1 hfind r hr)
  | some r' =>
    have hfound := List.find?_some hfind
    rw [decide_eq_true_eq] at hfound
    rw [Option.map_some, h r' (List.mem_of_find?_eq_some hfind) r hr _ hfound hhost]

theorem free_of_check (hrt : KeepsNames rt) (h : Hosts domain tenants s) (hk : Formed domain tenants k)
    (hcheck : ¬ crossTenantHostnameTaken rt s tenant k.hostname = true) (ht : k.tenantId = tenant.id) : hostClaims.Free k s := by
  intro r hr hhost
  refine Or.inl ?_
  -- if one of the two is custom, the check looks for the very hostname
  have hfqdn : isFqdn k.hostname = true → r.tenantId = k.tenantId := by
    intro hf
    have hhost' : r.hostname = some (rt.trim (rt.lower k.hostname)) := by rw [hrt _ hf, hhost]
    have howner : r.tenantId = tenant.id := by simpa [crossTenantHostnameTaken, resolve_of_one h.one hr hhost'] using hcheck
    rw [howner, ht]
  rcases hk with ⟨-, hf⟩ | ⟨-, t, htm, htid, label, hlabel⟩
  · exact hfqdn hf
  · rcases h.formed r hr _ hhost with ⟨-, hf⟩ | ⟨-, t', htm', htid', label', hlabel'⟩
    · exact hfqdn hf
    · -- two managed hostnames have the slug of their tenant in them
      have hslug : t.slug = t'.slug := by
        have heq : label ++ '.' :: t.slug ++ '.' :: domain = label' ++ '.' :: t'.slug ++ '.' :: domain := by
          simpa using hlabel.symm.trans hlabel'
        exact (last_label_unique (isLabel_no_dot (tenants.label t htm)) (isLabel_no_dot (tenants.label t' htm'))
          (List.append_cancel_right heq)).2
      rw [← htid, tenants_slug_inj htm htm' hslug]
      exact htid'.symm

/-- The thread holds nothing yet, and checks a hostname before it writes it. -/
def Calm (domain : Text) (tenants : Tenants) (thread : SiteThread) : Prop :=
  thread.claim hostClaims.held = none ∧ hostClaims.Checks (Hosts domain tenants) thread

theorem calm_done : Calm domain tenants .done := ⟨rfl, trivial⟩

theorem calm_exec {stmt : SiteStmt} (hheld : hostClaims.held stmt = none) {next : Sites → SiteThread}
    (hnext : ∀ s, Calm domain tenants (next s)) : Calm domain tenants (exec stmt next) := by
  refine ⟨hheld, fun s => ⟨?_, ?_, ?_⟩, fun s => (hnext s).2⟩
  · intro hinv hfree
    exact hosts_apply hinv hfree fun k hk => by rw [hheld] at hk; cases hk
  · intro _ _ k hk
    rw [(hnext s).1] at hk
    cases hk
  · intro hinv k hfree hapart
    exact free_apply hinv.ids hfree hapart

theorem checks_write {write : SiteStmt} (hheld : hostClaims.held write = some k) (hk : Formed domain tenants k) :
    hostClaims.Checks (Hosts domain tenants) (finish write) := by
  refine ⟨fun s => ⟨?_, ?_, ?_⟩, fun _ => trivial⟩
  · intro hinv hfree
    exact hosts_apply hinv hfree fun k' hk' => Option.some.inj (hheld.symm.trans hk') ▸ hk
  · intro _ _ k' hk'
    cases hk'
  · intro hinv k' hfree hapart
    exact free_apply hinv.ids hfree hapart

theorem calm_checkHost (hrt : KeepsNames rt) {write : SiteStmt} (hheld : hostClaims.held write = some k)
    (hk : Formed domain tenants k) (ht : k.tenantId = tenant.id) : Calm domain tenants (checkHost rt tenant k.hostname write) := by
  refine ⟨rfl, fun s => ⟨fun hinv _ => hinv, ?_, fun _ k' hfree _ => hfree⟩, fun s => ?_⟩
  · intro hinv _ k' hk'
    split_ifs at hk' with hcheck
    · cases hk'
    · obtain rfl : k = k' := Option.some.inj (hheld.symm.trans hk')
      exact free_of_check hrt hinv hk hcheck ht
  · dsimp only
    split_ifs
    · exact trivial
    · exact checks_write hheld hk

theorem formed_of_validate {r : Request} {secret : Bool} (hadmin : adminTenant rt domain tenants r = .ok tenant)
    {c n hostname u : Text} {custom i rs : Bool} {d cm : Option Text}
    (h : validateSiteInput rt r.body (opts rt domain r secret) = .ok (.transparent c n hostname custom u d i cm rs)) :
    Formed domain tenants ⟨tenant.id, hostname, custom⟩ := by
  obtain ⟨htm, hslug⟩ := adminTenant_ok hadmin
  have hh := (validate_transparent h).2
  rw [show (opts rt domain r secret).hostSuffix = some ('.' :: tenant.slug ++ '.' :: domain) by
    rw [opts, siteHostSuffix, hslug, Option.map_some]] at hh
  rcases siteHostname_ok (by simp) hh with ⟨hc, -, -, hf⟩ | ⟨hc, label, hl⟩
  · exact Or.inl ⟨hc, hf⟩
  · exact Or.inr ⟨hc, tenant, htm, rfl, label, hl⟩

theorem calm_postThread (hrt : KeepsNames rt) {r : Request} (hadmin : adminTenant rt domain tenants r = .ok tenant) :
    Calm domain tenants (postThread rt domain tenant r) := by
  unfold postThread
  split
  · exact calm_done
  · rename_i v hv
    refine calm_exec rfl fun s => ?_
    split_ifs
    · exact calm_done
    · exact calm_done
    · exact calm_done
    · cases v with
      | transparent => exact calm_checkHost (k := ⟨_, _, _⟩) hrt rfl (formed_of_validate hadmin hv) rfl
      | isolated => exact calm_exec rfl fun _ => calm_done
      | gateway => exact calm_exec rfl fun _ => calm_done

theorem calm_patchThread (hrt : KeepsNames rt) (id : ℕ) {r : Request} (hadmin : adminTenant rt domain tenants r = .ok tenant) :
    Calm domain tenants (patchThread rt domain tenant id r) := by
  unfold patchThread
  split
  · exact calm_done
  · rename_i v hv
    split
    · exact calm_done
    · refine calm_exec rfl fun s => ?_
      split
      · exact calm_done
      · split
        · exact calm_done
        · cases v with
          | transparent => exact calm_checkHost (k := ⟨_, _, _⟩) hrt rfl (formed_of_validate hadmin hv) rfl
          | isolated => exact calm_exec rfl fun _ => calm_done
          | gateway =>
            refine calm_exec rfl fun s => ?_
            split
            · exact calm_done
            · exact calm_exec rfl fun _ => calm_done

theorem calm_siteThread (hrt : KeepsNames rt) (request : Route × Request) :
    Calm domain tenants (siteThread rt domain tenants request) := by
  obtain ⟨route, r⟩ := request
  unfold siteThread
  split
  · exact calm_done
  · rename_i tenant hadmin
    cases route with
    | post => exact calm_postThread hrt hadmin
    | patch id => exact calm_patchThread hrt id hadmin
    | delete id =>
      refine calm_exec rfl fun s => ?_
      split
      · exact calm_done
      · exact calm_exec rfl fun _ => calm_done

end Threads

theorem asciiRuntime_keepsNames : KeepsNames asciiRuntime := by
  intro hostname h
  refine (List.map_congr_left fun c hc => ?_).trans (List.map_id hostname)
  rcases isFqdn_chars h hc with rfl | rfl | halnum
  · rfl
  · rfl
  · exact toLower_of_alnum halnum

/-- One tenant's managed site, and the same hostname as a custom domain of every other request. -/
def wikiForms (i : ℕ) : Route × Request :=
  if i = 0 then siteForm "acme" "wiki" false else siteForm "globex" "wiki.acme.cloud.example" true

def wikiRequests : Pool Sites SiteStmt := ⟨⟨[], 0⟩, fun i => siteThread asciiRuntime cloud acmeAndGlobex (wikiForms i)⟩

end Captivo.Site
