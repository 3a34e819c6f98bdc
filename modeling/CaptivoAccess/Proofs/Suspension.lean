import CaptivoAccess.Proofs.NetworkGate
import CaptivoAccess.Spec.Suspension

/-! What a suspended tenant is answered. The status is looked at where the tenant is found
by its slug, and nowhere else: a session that is there resolves, and a grant that is
there allows. -/

namespace Captivo.Suspension

open Lib.Dns Lib.Threads Captivo.Access
open Captivo.DataPlane (Manager User checkAccess gatewayDescriptor resolveTenantBySite findUser evaluateIn scopeOf siteScope
  gatewayDescriptor_iff)

/-- The user is active and has a grant on the site that is in force. -/
def Granted (c : Cloud) (d : Realm) (userId siteId : Text) : Prop :=
  (findUser (c.having d.tables) c.tenant userId).map User.active = some true ∧
    ∃ g ∈ d.tables.grants c.tenant userId siteId, classifyGrant c.manager.intl g d.now = .allow

/-- The sessions are ended without failure, no sign-in is committed after that, and while the suspension is in force
nothing is asked for a user with a grant. -/
def Clear (c : Cloud) : RealmStmt → Realm → Prop
  | .forceLogoutTenant _ fails, _ => fails = false
  | .createSession _, d => d.wiped = false
  | .check userId siteId _, d => d.inForce = true → ¬ Granted c d userId siteId
  | .descriptor userId siteId, d => d.inForce = true → ¬ Granted c d userId siteId
  | _, _ => True

/-! Answers. -/

section Answers

variable {c : Cloud} {d : Realm} {userId siteId : Text}

theorem bestDecision_allow {intl : Intl} {now : ℤ} {best : Option Reason} {grants : List Grant}
    (h : (bestDecision intl now best grants).allow = true) : ∃ g ∈ grants, classifyGrant intl g now = .allow := by
  induction grants generalizing best with
  | nil => simp [bestDecision] at h
  | cons g gs ih =>
    by_cases hg : classifyGrant intl g now = .allow
    · exact ⟨g, List.mem_cons_self, hg⟩
    · rw [bestDecision] at h
      simp only [hg, if_false] at h
      obtain ⟨g', hg', hallow⟩ := ih h
      exact ⟨g', List.mem_cons_of_mem _ hg', hallow⟩

theorem granted_of_evaluateIn (h : (evaluateIn (c.having d.tables) d.now c.tenant userId siteId).allow = true) :
    Granted c d userId siteId := by
  rw [evaluateIn, evaluateAccess] at h
  by_cases hactive : (findUser (c.having d.tables) c.tenant userId).map User.active = some true
  · rw [if_pos hactive] at h
    exact ⟨hactive, bestDecision_allow h⟩
  · rw [if_neg hactive] at h
    cases h

theorem having_multiTenant (c : Cloud) (t : Tables) : (c.having t).multiTenant = true := c.multiTenant

theorem scopeOf_having (hsite : resolveTenantBySite (c.having d.tables) siteId = some c.tenant) :
    scopeOf (c.having d.tables) (resolveTenantBySite (c.having d.tables) siteId) = some c.tenant := by
  rw [hsite, scopeOf, if_pos (having_multiTenant c d.tables)]

theorem granted_of_check {clientIp : Text} (hsite : resolveTenantBySite (c.having d.tables) siteId = some c.tenant)
    (h : (Outcome.check (checkAccess (c.having d.tables) d.now userId siteId clientIp)).positive = true) :
    Granted c d userId siteId := by
  rw [checkAccess, scopeOf_having hsite] at h
  simp only at h
  split_ifs at h with hids hip
  · cases h
  · cases h
  · exact granted_of_evaluateIn h

theorem granted_of_descriptor (hsite : resolveTenantBySite (c.having d.tables) siteId = some c.tenant)
    (h : (Outcome.descriptor (gatewayDescriptor (c.having d.tables) d.now userId siteId)).positive = true) :
    Granted c d userId siteId := by
  obtain ⟨answer, hanswer⟩ := Option.isSome_iff_exists.1 h
  obtain ⟨-, -, site, hs, hallow, -⟩ := gatewayDescriptor_iff.1 hanswer
  have hscope : siteScope (c.having d.tables) site = c.tenant := by
    rw [siteScope, if_pos (having_multiTenant c d.tables)]
    rw [resolveTenantBySite, hs] at hsite
    exact Option.some.inj hsite
  rw [hscope] at hallow
  exact granted_of_evaluateIn hallow

theorem getSessionUser_nil (h : d.sessions = []) (policy : Policy.SessionPolicy) (tokenHash : Text) :
    getSessionUser c d policy tokenHash = (none, []) := by
  simp [getSessionUser, h]

end Answers

/-! Statements. -/

/-- While a suspension is in force its sessions were ended and there are none, and what was answered was no. -/
structure Closed (d : Realm) : Prop where
  ended : d.wiped = true → d.sessions = []
  wiped : d.inForce = true → d.wiped = true
  answers : ∀ a ∈ d.answers, a.inForce = true → a.outcome.positive = false

/-- Sessions that were ended stay so until the tenant is activated. -/
def Realm.Later (d d' : Realm) : Prop :=
  d.activations ≤ d'.activations ∧ (d.activations = d'.activations → d.wiped = true → d'.wiped = true)

/-- What the statements of a suspend action know of those before them. -/
def RealmStmt.Known : RealmStmt → Realm → Prop
  | .forceLogoutTenant activations _, d => activations ≤ d.activations
  | .complete activations, d => d.activations = activations → d.wiped = true
  | _, _ => True

section Step

variable {c : Cloud} {d : Realm}

theorem later_refl (d : Realm) : d.Later d := ⟨le_refl _, fun _ h => h⟩

theorem later_trans {a b e : Realm} (hab : a.Later b) (hbe : b.Later e) : a.Later e := by
  refine ⟨hab.1.trans hbe.1, fun heq hwiped => ?_⟩
  have hle := hab.1
  have hle' := hbe.1
  exact hbe.2 (by omega) (hab.2 (by omega) hwiped)

theorem closed_log {outcome : Outcome} (h : Closed d) (hno : d.inForce = true → outcome.positive = false) :
    Closed (d.log outcome) := by
  refine ⟨h.ended, h.wiped, fun a ha => ?_⟩
  rcases List.mem_append.1 ha with ha | ha
  · exact h.answers a ha
  · rw [List.mem_singleton.1 ha]
    exact hno

theorem closed_apply {l : RealmStmt} (h : Closed d) (hknown : l.Known d) (hok : Clear c l d) : Closed (l.apply c d) := by
  cases l with
  | read => exact h
  | setTenantStatus status =>
    cases status with
    | ACTIVE => exact ⟨fun hw => Bool.noConfusion hw, fun hf => Bool.noConfusion hf, h.answers⟩
    | SUSPENDED => exact ⟨h.ended, h.wiped, h.answers⟩
  | forceLogoutTenant activations fails =>
    obtain rfl : fails = false := hok
    exact ⟨fun _ => rfl, fun hf => by simp [RealmStmt.apply, h.wiped hf], h.answers⟩
  | complete activations =>
    refine ⟨h.ended, fun hf => ?_, h.answers⟩
    rcases Bool.or_eq_true_iff.1 hf with hf | hf
    · exact h.wiped hf
    · exact hknown (of_decide_eq_true hf)
  | createSession signIn => exact ⟨fun hw => Bool.noConfusion (hok.symm.trans hw), h.wiped, h.answers⟩
  | destroySession tokenHash => exact ⟨fun hw => by simp [RealmStmt.apply, h.ended hw], h.wiped, h.answers⟩
  | getSessionUser policy tokenHash =>
    refine closed_log ⟨fun hw => ?_, h.wiped, h.answers⟩ fun hf => ?_
    · rw [getSessionUser_nil (h.ended hw)]
    · rw [getSessionUser_nil (h.ended (h.wiped hf))]
      rfl
  | check userId siteId clientIp =>
    simp only [RealmStmt.apply]
    split_ifs with hsite
    · exact closed_log h fun hf => Bool.eq_false_iff.2 fun hyes => hok hf (granted_of_check hsite hyes)
    · exact h
  | descriptor userId siteId =>
    simp only [RealmStmt.apply]
    split_ifs with hsite
    · exact closed_log h fun hf => Bool.eq_false_iff.2 fun hyes => hok hf (granted_of_descriptor hsite hyes)
    · exact h
  | edit tables => exact ⟨h.ended, h.wiped, h.answers⟩
  | wait ms => exact ⟨h.ended, h.wiped, h.answers⟩

theorem later_apply (l : RealmStmt) : d.Later (l.apply c d) := by
  cases l with
  | setTenantStatus status =>
    cases status with
    | ACTIVE => exact ⟨Nat.le_succ _, fun heq => absurd heq (Nat.ne_of_lt (Nat.lt_succ_self _))⟩
    | SUSPENDED => exact later_refl d
  | forceLogoutTenant activations fails =>
    simp only [RealmStmt.apply]
    split_ifs
    · exact later_refl d
    · exact ⟨le_refl _, fun _ hw => by simp [hw]⟩
  | check userId siteId clientIp =>
    simp only [RealmStmt.apply]
    split_ifs <;> exact later_refl d
  | descriptor userId siteId =>
    simp only [RealmStmt.apply]
    split_ifs <;> exact later_refl d
  | _ => exact later_refl d

end Step

/-! Requests. -/

/-- One statement of a request: what it is called is what it does, and what it knows holds. -/
structure Proper (c : Cloud) (l : RealmStmt) (f : Realm → Realm) (_ : Realm → RealmThread) (d : Realm) : Prop where
  apply : f = l.apply c
  known : l.Known d

abbrev RealmRelies (c : Cloud) : Realm → RealmThread → Prop := Thread.Relies Realm.Later Closed (Clear c) (Proper c)

section Requests

variable {c : Cloud} {d : Realm}

theorem relies_perform {s : RealmStmt} {next : Realm → RealmThread} (hknown : ∀ d', d.Later d' → s.Known d')
    (hnext : ∀ d', d.Later d' → Clear c s d' → RealmRelies c (s.apply c d') (next d')) :
    RealmRelies c d (perform c s next) :=
  fun d' hd' _ => ⟨⟨rfl, hknown d' hd'⟩, hnext d' hd'⟩

theorem relies_lastly {s : RealmStmt} (hknown : ∀ d', d.Later d' → s.Known d') : RealmRelies c d (lastly c s) :=
  relies_perform hknown fun _ _ _ => trivial

/-- A request that reads and then ends or makes one statement that knows nothing. -/
theorem relies_readThen {go : Realm → Bool} {s : RealmStmt} (hknown : ∀ d, s.Known d) :
    RealmRelies c d (perform c .read fun d => if go d then lastly c s else .done) := by
  refine relies_perform (fun _ _ => trivial) fun d' _ _ => ?_
  cases go d' with
  | true => exact relies_lastly fun d'' _ => hknown d''
  | false => trivial

theorem relies_suspend (statusFails logoutFails : Bool) : RealmRelies c d (suspend c statusFails logoutFails) := by
  refine relies_perform (fun _ _ => trivial) fun d₀ _ _ => ?_
  by_cases hrefused : (d₀.deleted || statusFails) = true
  · rw [if_pos hrefused]
    trivial
  · rw [if_neg hrefused]
    refine relies_perform (fun _ _ => trivial) fun d₁ _ _ => ?_
    refine relies_perform (fun d₂ hd₂ => hd₂.1) fun d₂ hd₂ hok => relies_lastly fun d₃ hd₃ heq => ?_
    -- the tenant has not been activated since, so the sessions were ended for this suspension
    obtain rfl : logoutFails = false := hok
    have hle : d₁.activations ≤ d₂.activations := hd₂.1
    have hle' : d₂.activations ≤ d₃.activations := hd₃.1
    have hsame : d₂.activations = d₁.activations := by omega
    refine hd₃.2 ?_ ?_
    · exact hsame.trans heq.symm
    · simp [RealmStmt.apply, hsame]

theorem relies_thread (r : RealmRequest) : RealmRelies c d (r.thread c) := by
  cases r with
  | suspend statusFails logoutFails => exact relies_suspend statusFails logoutFails
  | activate =>
    refine relies_perform (fun _ _ => trivial) fun d' _ _ => ?_
    by_cases hdeleted : d'.deleted = true
    · rw [if_pos hdeleted]
      trivial
    · rw [if_neg hdeleted]
      exact relies_lastly fun _ _ => trivial
  | signIn s accepted => exact relies_readThen fun _ => trivial
  | signOut tokenHash => exact relies_readThen fun _ => trivial
  | session policy tokenHash => exact relies_readThen fun _ => trivial
  | console policy tokenHash => exact relies_readThen fun _ => trivial
  | check userId siteId clientIp => exact relies_lastly fun _ _ => trivial
  | descriptor userId siteId => exact relies_lastly fun _ _ => trivial
  | edit tables => exact relies_lastly fun _ _ => trivial
  | wait ms => exact relies_lastly fun _ _ => trivial

end Requests

/-- If the sessions are ended without failure, no sign-in is committed after that and nothing is asked for a user with a
grant, then whatever is answered while a suspension is in force is no, and no session resolves. -/
theorem suspended_tenant_refused (c : Cloud) (tables : Tables) (deleted : Bool) (sessions : List Session) (now : ℤ)
    (requests : List RealmRequest) (schedule : List ℕ)
    (h : Lib.Run.Meets Pool.step (Pool.Guarded (Clear c)) (realmPool c (realm tables deleted sessions now) requests) schedule) :
    let d := ((realmPool c (realm tables deleted sessions now) requests).run schedule).db
    (∀ a ∈ d.answers, a.inForce = true → a.outcome.positive = false) ∧
      (d.inForce = true → ∀ policy tokenHash, (getSessionUser c d policy tokenHash).1 = none) := by
  have hstart : Closed (realm tables deleted sessions now) :=
    ⟨fun hw => Bool.noConfusion hw, fun hf => Bool.noConfusion hf, fun a ha => absurd ha List.not_mem_nil⟩
  have hall : ∀ i, RealmRelies c (realm tables deleted sessions now)
      ((realmPool c (realm tables deleted sessions now) requests).threads i) := by
    intro i
    simp only [realmPool]
    cases requests[i]? with
    | none => trivial
    | some r => exact relies_thread r
  have hkeeps : ∀ l f next d, Proper c l f next d → Clear c l d → Closed d → Closed (f d) ∧ d.Later (f d) := by
    intro l f next d hP hok hd
    rw [hP.apply]
    exact ⟨closed_apply hd hP.known hok, later_apply l⟩
  have hend := run_rely later_refl (fun _ _ _ => later_trans) hkeeps hall hstart h
  refine ⟨hend.answers, fun hf policy tokenHash => ?_⟩
  rw [getSessionUser_nil (hend.ended (hend.wiped hf))]

/-! A tenant with one vendor, who has a session and a grant on each site. -/

def acme : Cloud := ⟨DataPlane.acmeManager, rfl, "acme".toList⟩

def acmeTables : Tables where
  sites := DataPlane.acmeManager.sites
  users := DataPlane.acmeManager.users
  grants := DataPlane.acmeManager.grants
  vendorIpAllowlist := DataPlane.acmeManager.vendorIpAllowlist

def vendorSession : Session := ⟨"1", "u1".toList, "h1".toList, 0, 43200000, 0, false⟩

def acmeRealm : Realm := realm acmeTables false [vendorSession] 1000

/-- The tenant is suspended; then its session and its console are asked for, and access for a user that it does not have. -/
def suspendedThenAsked : List RealmRequest :=
  [.suspend false false, .session Policy.EMPTY "h1".toList, .console Policy.EMPTY "h1".toList,
    .descriptor "u2".toList "s1".toList]

theorem clear_suspendedThenAsked :
    Lib.Run.Meets Pool.step (Pool.Guarded (Clear acme)) (realmPool acme acmeRealm suspendedThenAsked) [0, 0, 0, 0, 1, 2, 3] := by
  refine ⟨?_, ?_, ?_, ?_, ?_, ?_, ?_, trivial⟩
  · exact Pool.guarded_of_label rfl trivial
  · exact Pool.guarded_of_label rfl trivial
  · exact Pool.guarded_of_label rfl rfl
  · exact Pool.guarded_of_label rfl trivial
  · exact Pool.guarded_of_label rfl trivial
  · exact Pool.guarded_of_label rfl trivial
  · refine Pool.guarded_of_label rfl fun _ hgranted => ?_
    exact absurd hgranted.1 (by decide)

def askedRealm : Realm := ((realmPool acme acmeRealm suspendedThenAsked).run [0, 0, 0, 0, 1, 2, 3]).db

theorem suspended_tenant_refused_acme :
    askedRealm.inForce = true ∧ askedRealm.answers.length = 1 ∧
      (∀ a ∈ askedRealm.answers, a.inForce = true → a.outcome.positive = false) ∧
      (askedRealm.inForce = true → ∀ policy tokenHash, (getSessionUser acme askedRealm policy tokenHash).1 = none) :=
  ⟨by decide, by decide, suspended_tenant_refused acme acmeTables false [vendorSession] 1000 suspendedThenAsked
    [0, 0, 0, 0, 1, 2, 3] clear_suspendedThenAsked⟩

/-- A second session of the vendor. -/
def vendorSignIn : SignIn := ⟨"2", "u1".toList, "h2".toList, Policy.EMPTY, 12⟩

/-- What was answered while a suspension was in force. -/
def answeredInForce (d : Realm) : List Bool := (d.answers.filter (·.inForce)).map (·.outcome.positive)

/-- A sign-in that found the tenant before it was suspended is committed after its sessions were ended; the sessions could
not be ended; and the vendor's grant is not asked about the tenant. -/
theorem suspended_tenant_admitted :
    answeredInForce ((realmPool acme acmeRealm
      [.suspend false false, .signIn vendorSignIn true, .session Policy.EMPTY "h2".toList]).run [1, 0, 0, 0, 0, 1, 2, 2]).db =
      [true] ∧
    answeredInForce ((realmPool acme acmeRealm
      [.suspend false true, .session Policy.EMPTY "h1".toList]).run [0, 0, 0, 0, 1, 1]).db = [true] ∧
    answeredInForce ((realmPool acme acmeRealm
      [.suspend false false, .check "u1".toList "s2".toList "10.1.2.3".toList, .descriptor "u1".toList "s1".toList]).run
        [0, 0, 0, 0, 1, 2]).db = [true, true] := by
  refine ⟨by decide +kernel, by decide +kernel, by decide +kernel⟩

end Captivo.Suspension
