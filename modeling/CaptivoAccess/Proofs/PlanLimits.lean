import CaptivoAccess.Proofs.EnrollAtomic
import CaptivoAccess.Spec.PlanLimits

/-! Whether a tenant stays within its limits. A limit is checked when a site, an invite or a
code is asked for, and what is then added is added later: by the same request, or by
whoever accepts the invite or redeems the code. What has been let through and is not
there yet is not counted. -/

namespace Captivo.Limits

open Lib.Threads Lib.Txn Captivo.Enroll

/-! Counts. -/

section Count

variable {α : Type} {sel q : α → Bool} {f : α → α} {rows : List α}

theorem countP_updateWhere_le (h : ∀ r ∈ rows, sel r = true → q (f r) = true → q r = true) :
    (updateWhere sel f rows).countP q ≤ rows.countP q := by
  rw [updateWhere, List.countP_map]
  refine List.countP_mono_left fun r hr hq => ?_
  by_cases hsel : sel r = true
  · simp only [Function.comp_apply, if_pos hsel] at hq
    exact h r hr hsel hq
  · simpa only [Function.comp_apply, if_neg hsel] using hq

theorem countP_concat_le (a : α) : (rows ++ [a]).countP q ≤ rows.countP q + 1 := by
  rw [List.countP_append]
  exact Nat.add_le_add_left List.countP_le_length _

theorem countP_updateWhere_add (h : ∀ r ∈ rows, sel r = true → q r = true ∧ q (f r) = false) :
    (updateWhere sel f rows).countP q + rows.countP sel = rows.countP q := by
  induction rows with
  | nil => rfl
  | cons r rows ih =>
    have hrest := ih fun r' hr' => h r' (List.mem_cons_of_mem _ hr')
    have hr := h r List.mem_cons_self
    rw [updateWhere] at hrest ⊢
    by_cases hsel : sel r = true
    · simp only [List.map_cons, List.countP_cons, hsel, if_true, hr hsel]
      simp only [Bool.false_eq_true, if_false]
      omega
    · simp only [List.map_cons, List.countP_cons, hsel]
      simp only [Bool.false_eq_true, if_false]
      omega

end Count

/-! What the transactions commit. -/

section Commit

variable (env : Env) (tenant : String) (fresh : Fresh)

/-- The connector's part adds a connector where the pairing is for a new one. -/
theorem exec_pairConnector_db (p : ConnectorPairing) (info : PairMeta) (d : Rows) :
    let d' := (exec applyWrite d false (pairConnector env (some tenant) fresh p info)).db
    d'.pairings = d.pairings ∧ d'.users = d.users ∧ d'.invites = d.invites ∧
    d'.connectors.countP (liveConnector tenant) ≤
      d.connectors.countP (liveConnector tenant) + if (truthy p.connectorId).isNone then 1 else 0 := by
  cases hc : truthy p.connectorId with
  | none =>
    simp only [pairConnector, hc, exec, answer, createConnector, Bool.false_eq_true, if_false, Option.isNone_none, if_true]
    split_ifs with hclash
    · simp
    · simp only [exec, List.foldl_cons, List.foldl_nil, applyWrite, true_and]
      exact countP_concat_le _
  | some connectorId =>
    simp only [pairConnector, hc, exec, answer, rotateConnector, updateMany, Bool.false_eq_true, if_false, Option.isNone_some]
    by_cases hnone : d.connectors.countP (rotatable (some tenant) connectorId) = 0
    · simp [exec, hnone]
    · split_ifs with hclash
      · simp
      · simp only [exec, hnone, if_false, List.foldl_cons, List.foldl_nil, applyWrite, true_and, Nat.add_zero]
        refine countP_updateWhere_le fun c _ hsel _ => ?_
        simp only [rotatable, Bool.and_eq_true] at hsel
        simp only [liveConnector, hsel, Bool.and_self]

/-- A redeem changes nothing, or uses up the code and adds no more than a connector, and that for a new one. -/
theorem commit_redeem (p : ConnectorPairing) (info : PairMeta) (rows : Rows) :
    let rows' := commit (redeemCallback env (some tenant) fresh p info) rows
    rows' = rows ∨ 0 < rows.pairings.countP (unusedPairing (some tenant) p.id) ∧
      rows'.pairings =
        updateWhere (unusedPairing (some tenant) p.id) (fun q => { q with usedAt := some fresh.now }) rows.pairings ∧
      rows'.users = rows.users ∧ rows'.invites = rows.invites ∧
      rows'.connectors.countP (liveConnector tenant) ≤
        rows.connectors.countP (liveConnector tenant) + if (truthy p.connectorId).isNone then 1 else 0 := by
  by_cases hn : rows.pairings.countP (unusedPairing (some tenant) p.id) = 0
  · left
    simp [commit, redeemCallback, exec, answer, usePairing, updateMany, hn]
  · have hpos := Nat.pos_of_ne_zero hn
    simp only [commit, exec_redeemCallback env fresh info hpos]
    by_cases hab : (exec applyWrite (applyWrite rows (.usePairing (some tenant) p.id fresh.now)) false
        (pairConnector env (some tenant) fresh p info)).aborted = true
    · exact Or.inl (if_pos hab)
    · rw [if_neg hab]
      exact Or.inr ⟨hpos, exec_pairConnector_db env tenant fresh p info _⟩

/-- An acceptance changes nothing, or adds a user and uses up the invite if it can. -/
theorem commit_accept (invite : Invite) (uid : Option String) (displayName label : String) (credential : Credential)
    (rows : Rows) :
    let rows' := commit (enrollCallback (some tenant) fresh invite uid displayName credential label) rows
    rows' = rows ∨ rows'.pairings = rows.pairings ∧ rows'.connectors = rows.connectors ∧
      (∃ u, rows'.users = rows.users ++ [u]) ∧
      (0 < rows.invites.countP (unusedInvite (some tenant) invite.id) → rows'.invites =
        updateWhere (unusedInvite (some tenant) invite.id) (fun i => { i with usedAt := some fresh.now }) rows.invites) := by
  simp only [commit]
  rcases enrollCallback_cases (some tenant) fresh invite uid displayName label credential rows with
    ⟨hab, -⟩ | ⟨u, p, hab, ⟨hused, -, -, hdb⟩ | ⟨-, -, hdb⟩⟩
  · exact Or.inl (if_pos hab)
  · simp only [hab, hdb, Bool.false_eq_true, if_false]
    exact Or.inr ⟨rfl, rfl, ⟨u, rfl⟩, fun h => absurd hused h.ne'⟩
  · simp only [hab, hdb, Bool.false_eq_true, if_false]
    exact Or.inr ⟨rfl, rfl, ⟨u, rfl⟩, fun _ => rfl⟩

end Commit

/-! What has been let through. -/

/-- An unused code for a new connector. -/
def newConnectorCode (tenant : String) (p : ConnectorPairing) : Bool :=
  sees (some tenant) p.tenantId && p.usedAt.isNone && (truthy p.connectorId).isNone

/-- What invites and codes that are not used yet can still add. -/
def promised (tenant : String) (d : Workspace) : LimitKey → ℕ
  | .maxUsers => d.rows.invites.countP fun i => sees (some tenant) i.tenantId && i.usedAt.isNone
  | .maxSites => 0
  | .maxConnectors => d.rows.pairings.countP (newConnectorCode tenant)

def taken (tenant : String) (d : Workspace) (key : LimitKey) : ℕ := countOf tenant d key + promised tenant d key

/-- The insert that the check of a limit is for. -/
def PlanStmt.inserts : PlanStmt → LimitKey → Bool
  | .createSite _, .maxSites => true
  | .createInvite _, .maxUsers => true
  | .createPairing p, .maxConnectors => (truthy p.connectorId).isNone
  | _, _ => false

/-- One for a request that is about to insert. -/
def weight (key : LimitKey) : PlanThread → ℕ
  | .done => 0
  | .act l _ _ => if l.inserts key then 1 else 0

/-- The ids of the codes, each with the connector it is for. -/
def marks (d : Workspace) : List (String × Option String) := d.rows.pairings.map fun p => (p.id, p.connectorId)

/-- A code stays, and stays for what it is. -/
def Workspace.Later (d d' : Workspace) : Prop := marks d ⊆ marks d'

/-- What a statement relies on of what its request has read. -/
def PlanStmt.Known : PlanStmt → Workspace → Prop
  | .redeem _ p _, d => (p.id, p.connectorId) ∈ marks d
  | _, _ => True

/-- An invite that is accepted is still unused, and a connector whose token is invalidated is not revoked. -/
def PlanStmt.Settled (tenant : String) : PlanStmt → Workspace → Prop
  | .accept _ invite _ _ _ _, d => 0 < d.rows.invites.countP (unusedInvite (some tenant) invite.id)
  | .invalidate id _, d => ∀ c ∈ d.rows.connectors, hasId (some tenant) id c = true → c.status ≠ .REVOKED
  | _, _ => True

/-- Codes have their own ids. -/
def Distinct (d : Workspace) : Prop := (d.rows.pairings.map (·.id)).Nodup

section Step

variable (env : Env) (tenant : String) {d : Workspace}

variable (l : PlanStmt)

theorem apply_limits : (l.apply env tenant d).limits = d.limits := by
  cases l <;> simp only [PlanStmt.apply]
  split_ifs <;> rfl

theorem marks_updateWhere {sel : ConnectorPairing → Bool} {usedAt : Option ℤ} {rows : List ConnectorPairing} :
    (updateWhere sel (fun p => { p with usedAt := usedAt }) rows).map (fun p => (p.id, p.connectorId)) =
      rows.map fun p => (p.id, p.connectorId) := by
  rw [updateWhere, List.map_map]
  refine List.map_congr_left fun p _ => ?_
  by_cases hsel : sel p = true
  · simp only [Function.comp_apply, if_pos hsel]
  · simp only [Function.comp_apply, if_neg hsel]

/-- A statement leaves the codes and what they are for, or adds one with a new id. -/
theorem marks_apply :
    marks (l.apply env tenant d) = marks d ∨
      ∃ p, (∀ q ∈ d.rows.pairings, q.id ≠ p.id) ∧ (l.apply env tenant d).rows.pairings = d.rows.pairings ++ [p] := by
  cases l with
  | createPairing p =>
    simp only [PlanStmt.apply]
    split_ifs with hclash
    · exact Or.inl rfl
    · exact Or.inr ⟨p, by simpa using hclash, rfl⟩
  | redeem fresh p info =>
    left
    simp only [marks, PlanStmt.apply]
    rcases commit_redeem env tenant fresh p info d.rows with h | ⟨-, hp, -⟩
    · rw [h]
    · rw [hp]
      exact marks_updateWhere
  | accept fresh invite uid displayName credential label =>
    left
    simp only [marks, PlanStmt.apply]
    rcases commit_accept tenant fresh invite uid displayName label credential d.rows with h | ⟨hp, -⟩
    · rw [h]
    · rw [hp]
  | _ => exact Or.inl rfl

theorem distinct_iff : Distinct d ↔ ((marks d).map Prod.fst).Nodup := by
  rw [Distinct, marks, List.map_map]
  rfl

theorem distinct_apply (h : Distinct d) : Distinct (l.apply env tenant d) := by
  rcases marks_apply env tenant (d := d) l with heq | ⟨p, hnew, heq⟩
  · rw [distinct_iff] at h ⊢
    rwa [heq]
  · rw [Distinct, heq, List.map_append, List.nodup_append]
    refine ⟨h, List.nodup_singleton _, fun id hid id' hid' => ?_⟩
    obtain ⟨q, hq, rfl⟩ := List.mem_map.1 hid
    rw [List.map_singleton, List.mem_singleton] at hid'
    rw [hid']
    exact hnew q hq

theorem later_apply : d.Later (l.apply env tenant d) := by
  rcases marks_apply env tenant (d := d) l with heq | ⟨p, -, heq⟩
  · rw [Workspace.Later, heq]
    exact List.Subset.refl _
  · rw [Workspace.Later, marks, marks, heq, List.map_append]
    exact List.subset_append_left _ _

theorem connectorId_of_known {p q : ConnectorPairing} (hd : Distinct d) (hp : (p.id, p.connectorId) ∈ marks d)
    (hq : q ∈ d.rows.pairings) (hid : q.id = p.id) : q.connectorId = p.connectorId := by
  have hmark : (q.id, q.connectorId) ∈ marks d := List.mem_map_of_mem hq
  have heq := List.inj_on_of_nodup_map (distinct_iff.1 hd) hmark hp hid
  exact congrArg Prod.snd heq

theorem promised_useInvite (id : String) (now : ℤ) (invites : List Invite) :
    (updateWhere (unusedInvite (some tenant) id) (fun i => { i with usedAt := some now }) invites).countP
        (fun i => sees (some tenant) i.tenantId && i.usedAt.isNone) + invites.countP (unusedInvite (some tenant) id) =
      invites.countP fun i => sees (some tenant) i.tenantId && i.usedAt.isNone := by
  refine countP_updateWhere_add fun i _ hsel => ?_
  simp only [unusedInvite, Bool.and_eq_true] at hsel
  simp [hsel]

theorem promised_usePairing {p : ConnectorPairing} (now : ℤ) (hd : Distinct d) (hp : (p.id, p.connectorId) ∈ marks d)
    (hpos : 0 < d.rows.pairings.countP (unusedPairing (some tenant) p.id)) :
    (updateWhere (unusedPairing (some tenant) p.id) (fun q => { q with usedAt := some now }) d.rows.pairings).countP
        (newConnectorCode tenant) + (if (truthy p.connectorId).isNone then 1 else 0) ≤
      d.rows.pairings.countP (newConnectorCode tenant) := by
  cases hnew : (truthy p.connectorId).isNone with
  | true =>
    have hlost : ∀ q ∈ d.rows.pairings, unusedPairing (some tenant) p.id q = true →
        newConnectorCode tenant q = true ∧ newConnectorCode tenant { q with usedAt := some now } = false := by
      intro q hq hsel
      simp only [unusedPairing, Bool.and_eq_true, decide_eq_true_eq] at hsel
      have hc := connectorId_of_known hd hp hq hsel.1.2
      simp [newConnectorCode, hsel, hc, hnew]
    have hadd := countP_updateWhere_add hlost
    rw [if_pos rfl]
    omega
  | false =>
    refine countP_updateWhere_le fun q _ _ hq => ?_
    simp [newConnectorCode] at hq

theorem taken_redeem {fresh : Fresh} {p : ConnectorPairing} {info : PairMeta} (hd : Distinct d)
    (hp : (p.id, p.connectorId) ∈ marks d) (key : LimitKey) :
    taken tenant ((PlanStmt.redeem fresh p info).apply env tenant d) key ≤ taken tenant d key := by
  simp only [PlanStmt.apply]
  rcases commit_redeem env tenant fresh p info d.rows with h | ⟨hpos, hpairings, husers, hinvites, hconnectors⟩
  · rw [h]
  · have hused := promised_usePairing tenant fresh.now hd hp hpos
    cases key with
    | maxUsers => simp only [taken, countOf, promised, husers, hinvites, le_refl]
    | maxSites => exact le_refl _
    | maxConnectors =>
      simp only [taken, countOf, promised, hpairings]
      omega

theorem taken_accept {fresh : Fresh} {invite : Invite} {uid : Option String} {displayName label : String}
    {credential : Credential} (hpos : 0 < d.rows.invites.countP (unusedInvite (some tenant) invite.id)) (key : LimitKey) :
    taken tenant ((PlanStmt.accept fresh invite uid displayName credential label).apply env tenant d) key ≤
      taken tenant d key := by
  simp only [PlanStmt.apply]
  rcases commit_accept tenant fresh invite uid displayName label credential d.rows with
    h | ⟨hpairings, hconnectors, ⟨u, husers⟩, hinvites⟩
  · rw [h]
  · have hused := promised_useInvite tenant invite.id fresh.now d.rows.invites
    cases key with
    | maxUsers =>
      simp only [taken, countOf, promised, husers, hinvites hpos]
      have hone : (d.rows.users ++ [u]).countP (fun u => sees (some tenant) u.tenantId) ≤
          d.rows.users.countP (fun u => sees (some tenant) u.tenantId) + 1 := countP_concat_le u
      omega
    | maxSites => exact le_refl _
    | maxConnectors => simp only [taken, countOf, promised, hpairings, hconnectors, le_refl]

/-- An update of the connector with an id adds none if it leaves them revoked. -/
theorem taken_updateConnectors {id : String} {f : Connector → Connector}
    (h : ∀ c ∈ d.rows.connectors, hasId (some tenant) id c = true → liveConnector tenant (f c) = true →
      liveConnector tenant c = true) (key : LimitKey) :
    taken tenant { d with rows := updateConnectors (hasId (some tenant) id) f d.rows } key ≤ taken tenant d key := by
  cases key with
  | maxUsers => exact le_refl _
  | maxSites => exact le_refl _
  | maxConnectors => exact Nat.add_le_add_right (countP_updateWhere_le h) _

theorem taken_apply {l : PlanStmt} (hd : Distinct d) (hknown : l.Known d) (hok : l.Settled tenant d) (key : LimitKey) :
    taken tenant (l.apply env tenant d) key ≤ taken tenant d key + if l.inserts key then 1 else 0 := by
  cases l with
  | read => exact Nat.le_add_right _ _
  | count _ _ => exact Nat.le_add_right _ _
  | createSite id => cases key <;> simp [taken, countOf, promised, PlanStmt.apply, PlanStmt.inserts]
  | createInvite i =>
    cases key with
    | maxUsers => exact Nat.add_le_add_left (countP_concat_le i) _
    | maxSites => exact Nat.le_add_right _ _
    | maxConnectors => exact Nat.le_add_right _ _
  | createPairing p =>
    simp only [PlanStmt.apply]
    by_cases hclash : d.rows.pairings.any (·.id = p.id) = true
    · rw [if_pos hclash]
      exact Nat.le_add_right _ _
    · rw [if_neg hclash]
      cases key with
      | maxUsers => exact Nat.le_add_right _ _
      | maxSites => exact Nat.le_add_right _ _
      | maxConnectors =>
        simp only [taken, countOf, promised, List.countP_append, List.countP_singleton, PlanStmt.inserts, ← Nat.add_assoc]
        refine Nat.add_le_add_left ?_ _
        by_cases hnew : newConnectorCode tenant p = true
        · have hnone := hnew
          simp only [newConnectorCode, Bool.and_eq_true] at hnone
          simp [hnew, hnone]
        · simp [hnew]
  | redeem fresh p info => exact Nat.le_add_right_of_le (taken_redeem env tenant hd hknown key)
  | accept fresh invite uid displayName credential label => exact Nat.le_add_right_of_le (taken_accept env tenant hok key)
  | revoke id =>
    refine Nat.le_add_right_of_le (taken_updateConnectors tenant (fun c _ _ hlive => ?_) key)
    simp [liveConnector] at hlive
  | invalidate id throwaway =>
    refine Nat.le_add_right_of_le (taken_updateConnectors tenant (fun c hc hid hlive => ?_) key)
    have := hok c hc hid
    simp [liveConnector] at hlive
    simp [liveConnector, hlive, this]

end Step

/-! Requests and pools of them. -/

/-- One statement of a request: what it is called is what it does, what it knows holds, and only the check of a limit is
followed by the insert it is for. -/
structure Proper (env : Env) (tenant : String) (l : PlanStmt) (f : Workspace → Workspace) (next : Workspace → PlanThread)
    (d : Workspace) : Prop where
  apply : f = l.apply env tenant
  known : l.Known d
  checked : ∀ key, weight key (next d) ≠ 0 →
    ∃ instead, l = .count key instead ∧ withinLimit (instead.getD d.limits) key (countOf tenant d key) = true

/-- The next statement of a request is settled, and a request that is let through finds room beside what is there, what is
promised and the other requests that are about to insert. -/
def Fits (tenant : String) (n : ℕ) (p : Pool Workspace PlanStmt) (i : ℕ) : Prop :=
  ∀ l ∈ p.label i, l.Settled tenant p.db ∧
    ∀ key instead, l = .count key instead → withinLimit (instead.getD p.db.limits) key (countOf tenant p.db key) = true →
      ∀ max ∈ p.db.limits key, taken tenant p.db key + p.load (weight key) n < max

theorem weight_le_one (key : LimitKey) (t : PlanThread) : weight key t ≤ 1 := by
  cases t with
  | done => exact Nat.zero_le 1
  | act l f next =>
    rw [weight]
    split_ifs <;> omega

abbrev PlanRelies (env : Env) (tenant : String) : Workspace → PlanThread → Prop :=
  Thread.Relies Workspace.Later Distinct (PlanStmt.Settled tenant) (Proper env tenant)

section Requests

variable {env : Env} {tenant : String} {d : Workspace}

/-- A request, or the rest of one, that does not go on to an insert that a limit is for. -/
def Quiet (env : Env) (tenant : String) (d : Workspace) (t : PlanThread) : Prop :=
  PlanRelies env tenant d t ∧ ∀ key, weight key t = 0

theorem quiet_done : Quiet env tenant d .done := ⟨trivial, fun _ => rfl⟩

theorem quiet_perform {s : PlanStmt} {next : Workspace → PlanThread} (hins : ∀ key, s.inserts key = false)
    (hknown : ∀ d', d.Later d' → s.Known d')
    (hnext : ∀ d', d.Later d' → Quiet env tenant (s.apply env tenant d') (next d')) :
    Quiet env tenant d (perform env tenant s next) := by
  refine ⟨fun d' hd' _ => ⟨⟨rfl, hknown d' hd', fun key h => absurd ((hnext d' hd').2 key) h⟩, fun _ => (hnext d' hd').1⟩,
    fun key => ?_⟩
  simp only [perform, weight, hins key, Bool.false_eq_true, if_false]

theorem quiet_read {next : Workspace → PlanThread} (hnext : ∀ d', Quiet env tenant d' (next d')) :
    Quiet env tenant d (perform env tenant .read next) :=
  quiet_perform (fun _ => rfl) (fun _ _ => trivial) fun d' _ => hnext d'

theorem quiet_lastly {s : PlanStmt} (hins : ∀ key, s.inserts key = false) (hknown : ∀ d', d.Later d' → s.Known d') :
    Quiet env tenant d (lastly env tenant s) :=
  quiet_perform hins hknown fun _ _ => quiet_done

theorem relies_countThen {key : LimitKey} {instead : Option TenantLimits} {accepted : Bool} {insert : PlanStmt}
    (hknown : ∀ d, insert.Known d) (hkey : ∀ key', insert.inserts key' = true → key' = key) :
    PlanRelies env tenant d (countThen env tenant key instead accepted insert) := by
  intro d' _ _
  by_cases hlet : (withinLimit (instead.getD d'.limits) key (countOf tenant d' key) && accepted) = true
  · refine ⟨⟨rfl, trivial, fun key' hweight => ?_⟩, fun _ => ?_⟩
    · rw [if_pos hlet] at hweight
      have hins : insert.inserts key' = true := by
        by_contra h
        exact hweight (if_neg h)
      rw [hkey key' hins]
      exact ⟨instead, rfl, (Bool.and_eq_true_iff.1 hlet).1⟩
    · dsimp only
      rw [if_pos hlet]
      exact fun d'' _ _ => ⟨⟨rfl, hknown d'', fun _ hweight => absurd rfl hweight⟩, fun _ => trivial⟩
  · refine ⟨⟨rfl, trivial, fun key' hweight => ?_⟩, fun _ => ?_⟩
    · rw [if_neg hlet] at hweight
      exact absurd rfl hweight
    · dsimp only
      rw [if_neg hlet]
      trivial

theorem quiet_redeemRequest (fresh : Fresh) (code : String) (info : PairMeta) :
    Quiet env tenant d (redeemRequest env tenant fresh code info) := by
  refine quiet_read fun d' => ?_
  cases scanPairings env code fresh.now d'.rows with
  | none => exact quiet_done
  | some p =>
    dsimp only
    split_ifs
    · exact quiet_done
    · refine quiet_read fun d' => ?_
      cases hfull : d'.rows.pairings.find? fun q => sees (some tenant) q.tenantId && q.id = p.id with
      | none => exact quiet_done
      | some full =>
        dsimp only
        split_ifs
        · exact quiet_done
        · -- the code is there, so it keeps its id and its connector
          have hmark := List.mem_map_of_mem (f := fun p => (p.id, p.connectorId)) (List.mem_of_find?_eq_some hfull)
          exact quiet_lastly (fun _ => rfl) fun d'' hd'' => hd'' hmark

theorem quiet_acceptRequest (fresh : Fresh) (req : InviteRequest) :
    Quiet env tenant d (acceptRequest env tenant fresh req) := by
  unfold acceptRequest
  cases truthy req.inviteToken with
  | none => exact quiet_done
  | some token =>
    dsimp only
    by_cases hbody : (req.rateLimited || !req.hasResponse) = true
    · rw [if_pos hbody]
      exact quiet_done
    · rw [if_neg hbody]
      refine quiet_read fun d' => ?_
      split
      · exact quiet_done
      · split_ifs with hrefused
        · exact quiet_done
        · cases req.verified with
          | none => exact quiet_done
          | some credential => exact quiet_lastly (fun _ => rfl) fun _ _ => trivial

theorem quiet_revokeRequest (id : String) : Quiet env tenant d (revokeRequest env tenant id) := by
  refine quiet_read fun d' => ?_
  cases findConnector (some tenant) id d'.rows with
  | none => exact quiet_done
  | some c => exact quiet_lastly (fun _ => rfl) fun _ _ => trivial

theorem quiet_repairRequest (id : String) (invalidateNow : Bool) (fresh : RepairFresh) :
    Quiet env tenant d (repairRequest env tenant id invalidateNow fresh) := by
  refine quiet_read fun d' => ?_
  cases findConnector (some tenant) id d'.rows with
  | none => exact quiet_done
  | some c =>
    dsimp only
    by_cases hrepair : (canRepairConnector c.status && id ≠ "") = true
    · rw [if_pos hrepair]
      refine quiet_perform (fun key => ?_) (fun _ _ => trivial) fun _ _ => ?_
      · have hid : truthy (some id) = some id := by
          rw [Bool.and_eq_true, decide_eq_true_eq] at hrepair
          simp [truthy, hrepair.2]
        cases key <;> simp [PlanStmt.inserts, newPairing, hid]
      · cases invalidateNow with
        | true => exact quiet_lastly (fun _ => rfl) fun _ _ => trivial
        | false => exact quiet_done
    · rw [if_neg hrepair]
      exact quiet_done

theorem relies_thread (r : PlanRequest) : PlanRelies env tenant d (r.thread env tenant) := by
  cases r with
  | site id accepted instead =>
    exact relies_countThen (fun _ => trivial) fun key h => by cases key <;> simp_all [PlanStmt.inserts]
  | invite i accepted instead =>
    exact relies_countThen (fun _ => trivial) fun key h => by cases key <;> simp_all [PlanStmt.inserts]
  | connector name fresh instead =>
    exact relies_countThen (fun _ => trivial) fun key h => by cases key <;> simp_all [PlanStmt.inserts]
  | redeem fresh code info => exact (quiet_redeemRequest fresh code info).1
  | accept fresh req => exact (quiet_acceptRequest fresh req).1
  | revoke id => exact (quiet_revokeRequest id).1
  | repair id invalidateNow fresh => exact (quiet_repairRequest id invalidateNow fresh).1

theorem weight_thread (key : LimitKey) (r : PlanRequest) : weight key (r.thread env tenant) = 0 := by
  cases r with
  | site _ _ _ => rfl
  | invite _ _ _ => rfl
  | connector _ _ _ => rfl
  | redeem fresh code info => exact (quiet_redeemRequest (d := ⟨⟨[], [], [], [], []⟩, [], EMPTY⟩) fresh code info).2 key
  | accept fresh req => exact (quiet_acceptRequest (d := ⟨⟨[], [], [], [], []⟩, [], EMPTY⟩) fresh req).2 key
  | revoke _ => rfl
  | repair _ _ _ => rfl

end Requests

/-- What is there, what is promised and what is about to be inserted are within the limits. -/
structure WithRoom (tenant : String) (n : ℕ) (p : Pool Workspace PlanStmt) : Prop where
  idle : ∀ i, n ≤ i → p.threads i = .done
  room : ∀ key, ∀ max ∈ p.db.limits key, taken tenant p.db key + p.load (weight key) n ≤ max

theorem withRoom_step {env : Env} {tenant : String} {n : ℕ} {q : Pool Workspace PlanStmt} {i : ℕ} {l : PlanStmt}
    {f : Workspace → Workspace} {next : Workspace → PlanThread} (ht : q.threads i = .act l f next)
    (hP : Proper env tenant l f next q.db) (hd : Distinct q.db) (hfits : Fits tenant n q i) (h : WithRoom tenant n q) :
    WithRoom tenant n (q.step i) := by
  have hi : i < n := by
    by_contra hi
    rw [h.idle i (Nat.le_of_not_lt hi)] at ht
    cases ht
  have hdb : (q.step i).db = l.apply env tenant q.db := by rw [Pool.step, ht, hP.apply]
  obtain ⟨hok, hcount⟩ := hfits l (by simp only [Pool.label, ht, Option.mem_some_iff])
  refine ⟨fun j hj => ?_, fun key max hmax => ?_⟩
  · have hne : j ≠ i := by omega
    simp only [Pool.step, ht, Function.update_of_ne hne, h.idle j hj]
  · rw [hdb, apply_limits] at hmax
    rw [hdb]
    have hload : (q.step i).load (weight key) n + weight key (.act l f next) = q.load (weight key) n + weight key (next q.db) :=
      load_step hi ht
    have htaken := taken_apply env tenant hd hP.known hok key
    have hweight : weight key (.act l f next) = if l.inserts key then 1 else 0 := rfl
    have hroom := h.room key max hmax
    by_cases hnext : weight key (next q.db) = 0
    · omega
    · -- the request was let through by this statement
      obtain ⟨instead, hl, hwithin⟩ := hP.checked key hnext
      have hlt := hcount key instead hl hwithin max hmax
      have hone : weight key (next q.db) ≤ 1 := weight_le_one key _
      omega

def plainEnv : Env := ⟨(· = ·), id, (· = ' ')⟩

def oneOfEach : Workspace := ⟨⟨[], [], [], [], []⟩, [], fun _ => some 1⟩

def askConnector (code : String) : PlanRequest := .connector "edge" ⟨code, code, "", 0⟩ none

def redeemCode (code : String) : PlanRequest := .redeem ⟨"", code, code, 1⟩ code ⟨none, none⟩

/-- A code is asked for and redeemed. -/
def firstConnector : Pool Workspace PlanStmt := planPool plainEnv "acme" oneOfEach [askConnector "c1", redeemCode "c1"]

theorem fits_of_label {tenant : String} {n : ℕ} {p : Pool Workspace PlanStmt} {i : ℕ} {l : PlanStmt} (hl : p.label i = some l)
    (hok : l.Settled tenant p.db) (hcount : ∀ key instead, l ≠ .count key instead) : Fits tenant n p i := by
  intro l' hl'
  obtain rfl : l = l' := Option.some.inj (hl.symm.trans hl')
  exact ⟨hok, fun key instead h => absurd h (hcount key instead)⟩

theorem fits_firstConnector : Lib.Run.Meets Pool.step (Fits "acme" 2) firstConnector [0, 0, 1, 1, 1] := by
  refine ⟨fun l hl => ?_, ?_, ?_, ?_, ?_, trivial⟩
  · -- nothing is there yet, and nothing else has been let through
    obtain rfl : PlanStmt.count .maxConnectors none = l := Option.some.inj hl
    refine ⟨trivial, fun key instead hkey _ max hmax => ?_⟩
    obtain ⟨rfl, rfl⟩ := PlanStmt.count.inj hkey
    obtain rfl : 1 = max := Option.some.inj hmax
    decide
  · exact fits_of_label rfl trivial fun _ _ h => PlanStmt.noConfusion h
  · exact fits_of_label rfl trivial fun _ _ h => PlanStmt.noConfusion h
  · exact fits_of_label rfl trivial fun _ _ h => PlanStmt.noConfusion h
  · exact fits_of_label rfl trivial fun _ _ h => PlanStmt.noConfusion h

/-- An invite by its token, and who accepts it. -/
def askUser (token : String) : PlanRequest := .invite ⟨token, "", token, token, .STAFF, none, none, token, 10, none⟩ true none

def acceptInvite (token : String) : PlanRequest :=
  .accept ⟨"", "", token, 1⟩ ⟨false, some token, true, none, none, true, true, some ⟨token, [], 0, []⟩, none⟩

end Captivo.Limits
