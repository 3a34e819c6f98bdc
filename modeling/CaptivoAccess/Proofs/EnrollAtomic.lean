import CaptivoAccess.Proofs.TenantAtomic

/-! What a refused enrolment leaves behind in multi-tenant mode. -/

namespace Captivo.Enroll

open Lib.Txn Captivo.TenantTx

/-! Pairing. -/

/-- The pairing is for a connector that is gone or revoked. -/
def forGone (scope : Scope) (d : Rows) (p : ConnectorPairing) : Bool :=
  (truthy p.connectorId).any fun connectorId => !d.connectors.any (rotatable scope connectorId)

/-- The pairing that the scope finds is such a one, and live. -/
def connectorGone (scope : Scope) (now : ℤ) (d : Rows) (id : String) : Bool :=
  match d.pairings.find? fun p => sees scope p.tenantId && p.id = id with
  | none => false
  | some full => !usedOrExpired now full && forGone scope d full

/-- The code is that of such a pairing. -/
def stalePairing (env : Env) (now : ℤ) (d others : Rows) (code : String) : Bool :=
  (scanPairings env code now d).any fun p => connectorGone (some p.tenantId) now others p.id

variable {scope : Scope} {d : Rows}

theorem applyWrite_usePairing_ne {id : String} {p : ConnectorPairing} (hp : p ∈ d.pairings)
    (hu : unusedPairing scope id p = true) (now : ℤ) : applyWrite d (.usePairing scope id now) ≠ d := by
  intro h
  have hmap : d.pairings.map (fun row => if unusedPairing scope id row then { row with usedAt := some now } else row) =
      d.pairings.map fun row => row := by
    rw [List.map_id']
    exact congrArg Rows.pairings h
  have hrow := congrArg ConnectorPairing.usedAt (List.map_inj_left.1 hmap p hp)
  simp only [hu, if_true] at hrow
  simp [unusedPairing, ← hrow] at hu

theorem countP_rotatable (scope : Scope) (d : Rows) (c : String) :
    d.connectors.countP (rotatable scope c) = 0 ↔ d.connectors.any (rotatable scope c) = false := by
  rw [List.countP_eq_zero, List.any_eq_false]

/-- The connector's part of the callback fails with `CONNECTOR_GONE` exactly when it is gone, and then writes nothing. -/
theorem exec_pairConnector (env : Env) (scope : Scope) (fresh : Fresh) (p : ConnectorPairing) (info : PairMeta)
    (d : Rows) :
    let r := exec applyWrite d false (pairConnector env scope fresh p info)
    (forGone scope d p = true ∧ r.value = .error .CONNECTOR_GONE ∧ r.aborted = false ∧ r.writes = []) ∨
      (forGone scope d p = false ∧ r.value ≠ .error .CONNECTOR_GONE ∧ r.value ≠ .error .PAIRING_ALREADY_USED) := by
  cases hc : truthy p.connectorId with
  | none =>
    refine Or.inr ⟨by simp [forGone, hc], ?_⟩
    simp only [pairConnector, hc, exec, answer, createConnector, Bool.false_eq_true, if_false]
    split_ifs <;> simp [exec]
  | some connectorId =>
    cases hany : d.connectors.any (rotatable scope connectorId) with
    | false =>
      have hn := (countP_rotatable scope d connectorId).2 hany
      refine Or.inl ⟨by simp only [forGone, hc, Option.any_some, hany, Bool.not_false], ?_⟩
      simp [pairConnector, hc, exec, answer, rotateConnector, updateMany, hn]
    | true =>
      have hn : d.connectors.countP (rotatable scope connectorId) ≠ 0 := by
        rw [Ne, countP_rotatable, hany]
        simp
      refine Or.inr ⟨by simp only [forGone, hc, Option.any_some, hany, Bool.not_true], ?_⟩
      simp only [pairConnector, hc, exec, answer, rotateConnector, updateMany, Bool.false_eq_true, if_false]
      split_ifs <;> simp [exec, hn]

theorem exec_redeemCallback (env : Env) (fresh : Fresh) {p : ConnectorPairing} (info : PairMeta)
    (hu : 0 < d.pairings.countP (unusedPairing scope p.id)) :
    exec applyWrite d false (redeemCallback env scope fresh p info) =
      let rest := exec applyWrite (applyWrite d (.usePairing scope p.id fresh.now)) false
        (pairConnector env scope fresh p info)
      { rest with writes := .usePairing scope p.id fresh.now :: rest.writes } := by
  have hn : d.pairings.countP (unusedPairing scope p.id) ≠ 0 := by omega
  simp only [redeemCallback, exec, answer, usePairing, updateMany, hn, Bool.false_eq_true, if_false, List.foldl_cons,
    List.foldl_nil, List.singleton_append]

variable {fresh : Fresh} {env : Env}

theorem redeemScoped_null {id : String} {info : PairMeta}
    (h : (runAmbient applyWrite d false (redeemScoped env scope fresh id info)).value = .ok none) :
    connectorGone scope fresh.now d id = false ∧
        (runAmbient applyWrite d false (redeemScoped env scope fresh id info)).journal = [] ∨
      connectorGone scope fresh.now d id = true ∧ (∃ p ∈ d.pairings, unusedPairing scope id p = true) ∧
        runAmbient applyWrite d false (redeemScoped env scope fresh id info) =
          ⟨false, [(.threw, .usePairing scope id fresh.now)], .ok none⟩ := by
  cases hf : d.pairings.find? fun p => sees scope p.tenantId && p.id = id with
  | none =>
    refine Or.inl ⟨by simp [connectorGone, hf], ?_⟩
    simp [redeemScoped, runAmbient, answer, findPairing, hf, Trace.after, journal]
  | some full =>
    cases hlive : usedOrExpired fresh.now full with
    | true =>
      refine Or.inl ⟨by simp [connectorGone, hf, hlive], ?_⟩
      simp [redeemScoped, runAmbient, answer, findPairing, hf, hlive, Trace.after, journal]
    | false =>
      have hmem := List.mem_of_find?_eq_some hf
      have hsel := List.find?_some hf
      simp only [Bool.and_eq_true, decide_eq_true_eq] at hsel
      obtain ⟨hsees, rfl⟩ := hsel
      have hunused : unusedPairing scope full.id full = true := by
        simp only [usedOrExpired, Bool.or_eq_false_iff] at hlive
        simpa [unusedPairing, hsees] using hlive.1
      have hgone : connectorGone scope fresh.now d full.id = forGone scope d full := by
        simp only [connectorGone, hf, hlive, Bool.not_false, Bool.true_and]
      have hrun : runAmbient applyWrite d false (redeemScoped env scope fresh full.id info) =
          runAmbient applyWrite d false (finishRedeem env scope fresh full info) := by
        simp [redeemScoped, runAmbient, answer, findPairing, hf, hlive, Trace.after, journal]
      have hexec := exec_redeemCallback env fresh info
        (List.countP_pos_iff.2 ⟨full, hmem, hunused⟩)
      rw [hrun] at h ⊢
      rw [hgone]
      simp only [finishRedeem, runAmbient, hexec] at h ⊢
      rcases exec_pairConnector env scope fresh full info (applyWrite d (.usePairing scope full.id fresh.now)) with
        ⟨hg, hv, hab, hw⟩ | ⟨hg, hv1, hv2⟩
      · refine Or.inr ⟨hg, ⟨full, hmem, hunused⟩, ?_⟩
        simp only [hv, hab, hw, runAmbient, Trace.after, journal, originOf, List.map_cons, List.map_nil,
          List.append_nil]
      · -- any other end of the callback answers with a token or throws
        exfalso
        cases hval : (exec applyWrite (applyWrite d (.usePairing scope full.id fresh.now)) false
            (pairConnector env scope fresh full info)).value with
        | ok c => simp [hval, runAmbient, Trace.after] at h
        | error e => cases e <;> simp_all [runAmbient, Trace.after]

theorem withTenant_eq {B : Type} {req : Request Rows Write Reply Err String B} {b : B}
    (h : (withTenant applyWrite d req).2 = .ok b) :
    (runAmbient applyWrite d false req).value = .ok b ∧
      ((runAmbient applyWrite d false req).aborted = false →
        (withTenant applyWrite d req).1 = (runAmbient applyWrite d false req).journal) := by
  unfold withTenant at h ⊢
  cases hv : (runAmbient applyWrite d false req).value with
  | ok b' =>
    simp only [hv] at h ⊢
    exact ⟨h, fun hab => by simp [hab]⟩
  | error e => simp [hv] at h

theorem unchanged_of_others {j : Journal Write} (h : ∀ x ∈ j, x.1 = .others) : Unchanged applyWrite d j := by
  rw [Unchanged, List.filter_eq_self.2 (by simpa using h)]

theorem withTenant_journal_subset {B : Type} (req : Request Rows Write Reply Err String B) :
    (withTenant applyWrite d req).1 ⊆ (runAmbient applyWrite d false req).journal := by
  unfold withTenant
  simp only
  split
  · split_ifs
    · exact List.filter_subset_self _
    · exact List.Subset.refl _
  · exact List.filter_subset_self _

/-- A redeem that answers null has changed nothing exactly when the code is not that of a
live pairing whose connector is gone. -/
theorem redeemPairing_null_iff {d others : Rows} {code : String} {info : PairMeta}
    (h : (redeemPairing env true fresh d others code info).2 = .ok none) :
    Unchanged applyWrite d (redeemPairing env true fresh d others code info).1 ↔
      stalePairing env fresh.now d others code = false := by
  cases hp : scanPairings env code fresh.now d with
  | none => simp [redeemPairing, stalePairing, hp, Unchanged]
  | some p =>
    set req := redeemScoped env (some p.tenantId) fresh p.id info with hreq
    have hrun : redeemPairing env true fresh d others code info =
        withTenant applyWrite d (.outside [.rows others] req) := by
      simp [redeemPairing, runRequest, hp, hreq]
    have hstale : stalePairing env fresh.now d others code = connectorGone (some p.tenantId) fresh.now others p.id := by
      simp [stalePairing, hp]
    have htrace : runAmbient applyWrite d false (.outside [.rows others] req) =
        (runAmbient applyWrite others false req).after [(.others, .rows others)] := rfl
    rw [hrun] at h ⊢
    obtain ⟨hv, hj⟩ := withTenant_eq h
    rw [htrace] at hv hj
    rw [hstale]
    rcases redeemScoped_null hv with ⟨hg, hnil⟩ | ⟨hg, ⟨q, hq, hqu⟩, heq⟩
    · refine iff_of_true (unchanged_of_others fun x hx => ?_) hg
      have hx' := withTenant_journal_subset _ hx
      rw [htrace, Trace.after, hnil] at hx'
      simpa using congrArg Prod.fst (List.mem_singleton.1 hx')
    · refine iff_of_false ?_ (by simp [hg])
      rw [heq] at hj
      rw [hj rfl]
      exact applyWrite_usePairing_ne hq hqu fresh.now

/-! Invites. -/

/-- The live invite that the token of the request is for. -/
def invited (env : Env) (scope : Scope) (now : ℤ) (d : Rows) (req : InviteRequest) : Option Invite :=
  (truthy req.inviteToken).bind fun token =>
    verifyInvite env token
      (d.invites.filter fun i => sees scope i.tenantId && i.usedAt.isNone && decide (now < i.expiresAt))

/-- The callback fails on an insert, or it has made the user and the passkey and uses up the invite if it can. -/
theorem enrollCallback_cases (scope : Scope) (fresh : Fresh) (invite : Invite) (uid : Option String)
    (displayName label : String) (credential : Credential) (d : Rows) :
    let r := exec applyWrite d false (enrollCallback scope fresh invite uid displayName credential label)
    (r.aborted = true ∧ r.value = .error .sql) ∨ ∃ u p, r.aborted = false ∧
      let made := applyWrite (applyWrite d (.createUser u)) (.createPasskey p)
      (d.invites.countP (unusedInvite scope invite.id) = 0 ∧ r.value = .error .INVITE_ALREADY_USED ∧
        r.writes = [.createUser u, .createPasskey p] ∧ r.db = made) ∨
      (0 < d.invites.countP (unusedInvite scope invite.id) ∧ r.value = .ok u.id ∧
        r.db = applyWrite made (.useInvite scope invite.id fresh.now)) := by
  unfold enrollCallback
  set u : User := ⟨orElse uid fresh.id, stamp scope, invite.email, displayName, invite.role, invite.phone,
    invite.company⟩ with hu
  -- a failed insert is thrown on as it is
  cases hcu : createUser u d with
  | none =>
    rw [exec_stmt_none applyWrite hcu]
    exact Or.inl ⟨rfl, rfl⟩
  | some out =>
    obtain rfl : out = ([.createUser u], .created u.id) := by
      simp only [createUser, Option.ite_none_left_eq_some, Option.some.injEq] at hcu
      exact hcu.2.symm
    rw [exec_stmt_some applyWrite hcu]
    simp only [List.foldl_cons, List.foldl_nil]
    set p : Passkey := ⟨u.id, stamp scope, credential, label⟩ with hp
    cases hcp : createPasskey p (applyWrite d (.createUser u)) with
    | none =>
      rw [exec_stmt_none applyWrite hcp]
      exact Or.inl ⟨rfl, rfl⟩
    | some out =>
      obtain rfl : out = ([.createPasskey p], .created p.credential.id) := by
        simp only [createPasskey, Option.ite_none_left_eq_some, Option.some.injEq] at hcp
        exact hcp.2.symm
      rw [exec_stmt_some applyWrite hcp, exec_stmt_some applyWrite (s := useInvite scope invite.id fresh.now) rfl]
      have hinvites : (applyWrite (applyWrite d (.createUser u)) (.createPasskey p)).invites = d.invites := rfl
      refine Or.inr ⟨u, p, ?_⟩
      simp only [List.foldl_cons, List.foldl_nil, hinvites]
      by_cases hn : d.invites.countP (unusedInvite scope invite.id) = 0
      · simp [hn, exec]
      · simp [hn, exec, Nat.pos_of_ne_zero hn]

/-- The callback that finds the invite used has made the user and the passkey. -/
theorem exec_enrollCallback {invite : Invite} {uid : Option String}
    {displayName label : String} {credential : Credential}
    (h : (exec applyWrite d false (enrollCallback scope fresh invite uid displayName credential label)).value =
      .error .INVITE_ALREADY_USED) :
    (exec applyWrite d false (enrollCallback scope fresh invite uid displayName credential label)).aborted = false ∧
      ∃ u p, (exec applyWrite d false (enrollCallback scope fresh invite uid displayName credential label)).writes =
        [.createUser u, .createPasskey p] := by
  rcases enrollCallback_cases scope fresh invite uid displayName label credential d with
    ⟨-, hv⟩ | ⟨u, p, hab, ⟨-, -, hw, -⟩ | ⟨-, hv, -⟩⟩
  · rw [hv] at h
    simp at h
  · exact ⟨hab, u, p, hw⟩
  · rw [hv] at h
    simp at h

variable {req : InviteRequest}

/-- Past the invite check, 410 is the answer to a callback that found the invite used. -/
theorem enrollInvite_410 {others d : Rows}
    {invite : Invite} {resp : Response}
    (h : (runAmbient applyWrite d false (enrollInvite env scope fresh others req invite)).value = .ok resp)
    (hs : resp.status = 410) :
    ∃ u p, runAmbient applyWrite d false (enrollInvite env scope fresh others req invite) =
      ⟨false, [(.others, .rows others), (.threw, .createUser u), (.threw, .createPasskey p)], .ok resp⟩ := by
  unfold enrollInvite at h ⊢
  split_ifs at h ⊢ with h1 h2 h3
  · obtain rfl := Except.ok.inj h
    simp [refuse] at hs
  · obtain rfl := Except.ok.inj h
    simp [refuse] at hs
  · obtain rfl := Except.ok.inj h
    simp [refuse] at hs
  · cases hver : req.verified with
    | none =>
      rw [hver] at h
      obtain rfl := Except.ok.inj h
      simp [refuse] at hs
    | some credential =>
      simp only [hver, runAmbient, Trace.after, List.foldl_cons, List.foldl_nil, applyWrite] at h ⊢
      set callback := enrollCallback scope fresh invite req.uid
        ((normalizeDisplayName env.isSpace req.name.join).getD invite.name) credential
        (orElse (req.label.map env.trim) "Primary passkey") with hcb
      cases hv : (exec applyWrite others false callback).value with
      | ok userId =>
        simp only [hv, runAmbient] at h
        obtain rfl := Except.ok.inj h
        simp [ok] at hs
      | error e =>
        by_cases he : e = .INVITE_ALREADY_USED
        · subst he
          obtain ⟨hab, u, p, hw⟩ := exec_enrollCallback hv
          rw [← hcb] at hab hw
          simp only [hv, runAmbient] at h
          refine ⟨u, p, ?_⟩
          simp only [hab, hw, runAmbient, journal, originOf, List.map_cons, List.map_nil, List.append_nil,
            List.cons_append, List.nil_append]
          rw [h]
        · have hresp : resp = refuse 409 "email_taken" := by
            cases e <;> simp_all [runAmbient]
          rw [hresp] at hs
          simp [refuse] at hs

/-- A 410 either refuses the token at once, or comes from the part after that. -/
theorem inviteHandler_410 {d others : Rows}
    {resp : Response} (h : (runAmbient applyWrite d false (inviteHandler env scope fresh others req)).value = .ok resp)
    (hs : resp.status = 410) :
    (invited env scope fresh.now d req = none ∧
        (runAmbient applyWrite d false (inviteHandler env scope fresh others req)).journal = []) ∨
      ∃ invite, invited env scope fresh.now d req = some invite ∧
        runAmbient applyWrite d false (inviteHandler env scope fresh others req) =
          runAmbient applyWrite d false (enrollInvite env scope fresh others req invite) := by
  have hne : ∀ {status : ℕ} {error : String}, status ≠ 410 → Except.ok (refuse status error) ≠ Except.ok (ε := Err) resp := by
    intro status error hstatus heq
    rw [← Except.ok.inj heq] at hs
    exact hstatus hs
  by_cases hrate : req.rateLimited = true
  · simp only [inviteHandler, hrate, if_true, runAmbient] at h
    exact absurd h (hne (by omega))
  cases ht : truthy req.inviteToken with
  | none =>
    simp only [inviteHandler, hrate, ht, Bool.false_eq_true, if_false, runAmbient] at h
    exact absurd h (hne (by omega))
  | some token =>
    cases hresp : req.hasResponse with
    | false =>
      simp only [inviteHandler, hrate, ht, hresp, Bool.not_false, Bool.false_eq_true, if_false, if_true, runAmbient] at h
      exact absurd h (hne (by omega))
    | true =>
      simp only [inviteHandler, hrate, ht, hresp, Bool.not_true, Bool.false_eq_true, if_false, runAmbient, answer,
        findLiveInvites, List.foldl_nil, Trace.after, journal, List.map_nil, List.nil_append, invited, Option.bind_some]
      cases hi : verifyInvite env token
          (d.invites.filter fun i => sees scope i.tenantId && i.usedAt.isNone && decide (fresh.now < i.expiresAt)) with
      | none => exact Or.inl ⟨rfl, rfl⟩
      | some invite => exact Or.inr ⟨invite, rfl, rfl⟩

theorem registerInvite_410_iff {tenant : String} {d others : Rows}
    {resp : Response} (h : (registerInvite env true tenant fresh d others req).2 = .ok resp)
    (hs : resp.status = 410) :
    Unchanged applyWrite d (registerInvite env true tenant fresh d others req).1 ↔
      invited env (some tenant) fresh.now d req = none := by
  have hrun : registerInvite env true tenant fresh d others req =
      withTenant applyWrite d (inviteHandler env (some tenant) fresh others req) := by
    simp [registerInvite, runRequest]
  rw [hrun] at h ⊢
  obtain ⟨hv, hj⟩ := withTenant_eq h
  rcases inviteHandler_410 hv hs with ⟨hnone, hnil⟩ | ⟨invite, hsome, heq⟩
  · refine iff_of_true (unchanged_of_others fun x hx => ?_) hnone
    have hx' := withTenant_journal_subset _ hx
    rw [hnil] at hx'
    simp at hx'
  · rw [heq] at hv hj
    obtain ⟨u, p, htrace⟩ := enrollInvite_410 hv hs
    rw [htrace] at hj
    rw [hj rfl, hsome]
    refine iff_of_false ?_ (by simp)
    intro hu
    have hlen := congrArg (fun r => r.users.length) hu
    simp [commit, applyWrite] at hlen

/-- Hashes that are the text itself, and only the blank for white space. -/
def plainEnv : Env := ⟨fun code hash => code = hash, id, fun c => c = ' '⟩

/-- A connector that was given a new pairing code and then revoked. -/
def revokedRows : Rows where
  pairings := [⟨"p1", "t1", "code", "edge", some "c1", 1000, none⟩]
  connectors := [⟨"c1", "t1", "edge", "old", .REVOKED, none⟩]
  users := []
  passkeys := []
  invites := []

def redeemFresh : Fresh := ⟨"tok", "new", "c2", 500⟩

/-- An invite, and the table after an administrator has deleted it. -/
def invitedRows : Rows :=
  { revokedRows with invites := [⟨"i1", "t1", "v@x.io", "Vera", .VENDOR, none, none, "link", 1000, none⟩] }

def inviteRequest : InviteRequest where
  rateLimited := false
  inviteToken := some "link"
  hasResponse := true
  label := none
  name := none
  hasChallenge := true
  originMatches := true
  verified := some ⟨"cred", [], 0, []⟩
  uid := none

end Captivo.Enroll
