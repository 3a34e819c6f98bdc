import CaptivoAccess.Spec.ConnectorLife

/-! Revocation is final as long as no token is killed after it: the update of a re-pair
that invalidates at once is the only statement without a guard on the status. -/

namespace Captivo.Enroll

open Lib.Threads Lib.Txn

/-- The connector is there and `REVOKED`. -/
def RevokedIn (d : Rows) (id : String) : Prop :=
  (∃ c ∈ d.connectors, c.id = id) ∧ ∀ c ∈ d.connectors, c.id = id → c.status = .REVOKED

instance (d : Rows) (id : String) : Decidable (RevokedIn d id) :=
  inferInstanceAs (Decidable ((∃ c ∈ d.connectors, c.id = id) ∧ ∀ c ∈ d.connectors, c.id = id → c.status = .REVOKED))

/-- A token is killed at once only of a connector that is not revoked. -/
def NotRevoked : Label → Rows → Prop
  | .invalidate id, d => ¬ RevokedIn d id
  | .other, _ => True

instance (l : Label) (d : Rows) : Decidable (NotRevoked l d) :=
  match l with
  | .invalidate id => inferInstanceAs (Decidable (¬ RevokedIn d id))
  | .other => isTrue trivial

/-- The statement leaves every revoked connector revoked, but for the one it is named for. -/
def KeepsRevoked (l : Label) (f : Rows → Rows) : Prop :=
  ∀ d id, l ≠ .invalidate id → RevokedIn d id → RevokedIn (f d) id

theorem keepsRevoked_of_connectors_eq {l : Label} {f : Rows → Rows} (h : ∀ d, (f d).connectors = d.connectors) :
    KeepsRevoked l f := by
  intro d id _ hr
  rw [RevokedIn, h d]
  exact hr

/-- An update of connectors that keeps their ids, and of revoked ones the status. -/
theorem keepsRevoked_update {l : Label} {sel : Connector → Bool} {f : Connector → Connector} (hid : ∀ c, (f c).id = c.id)
    (hstatus : ∀ c, sel c = true → c.status = .REVOKED → l ≠ .invalidate c.id → (f c).status = .REVOKED) :
    KeepsRevoked l (updateConnectors sel f) := by
  rintro d id hl ⟨⟨c, hc, hcid⟩, hall⟩
  have hrow : ∀ c, (if sel c then f c else c).id = c.id := by
    intro c
    split_ifs
    · exact hid c
    · rfl
  refine ⟨⟨_, List.mem_map_of_mem hc, (hrow c).trans hcid⟩, ?_⟩
  intro c' hc' hid'
  obtain ⟨c, hc, rfl⟩ := List.mem_map.1 hc'
  rw [hrow] at hid'
  have hrev := hall c hc hid'
  split_ifs with hsel
  · exact hstatus c hsel hrev (by rwa [hid'])
  · exact hrev

/-! The handlers. -/

theorem all_reading {next : Rows → Handling} (h : ∀ d, (next d).All KeepsRevoked) : (reading next).All KeepsRevoked :=
  ⟨keepsRevoked_of_connectors_eq fun _ => rfl, h⟩

theorem all_writing {f : Rows → Rows} {next : Handling} (hf : KeepsRevoked .other f) (h : next.All KeepsRevoked) :
    (writing f next).All KeepsRevoked :=
  ⟨hf, fun _ => h⟩

variable (scope : Scope)

theorem keepsRevoked_createPairing (name connectorId : String) (fresh : RepairFresh) :
    KeepsRevoked .other (createPairing scope name connectorId fresh) :=
  keepsRevoked_of_connectors_eq fun _ => rfl

theorem keepsRevoked_unusePairing (id : String) : KeepsRevoked .other (unusePairing scope id) :=
  keepsRevoked_of_connectors_eq fun _ => rfl

theorem keepsRevoked_rotatable {scope : Scope} {id : String} {f : Connector → Connector} (hid : ∀ c, (f c).id = c.id) :
    KeepsRevoked .other (updateConnectors (rotatable scope id) f) := by
  refine keepsRevoked_update hid fun c hsel hrev _ => ?_
  simp [rotatable, hrev] at hsel

theorem keepsRevoked_usePairing (id : String) (now : ℤ) :
    KeepsRevoked .other (runStmt applyWrite (usePairing scope id now)) := by
  refine keepsRevoked_of_connectors_eq fun d => ?_
  simp only [runStmt, usePairing, updateMany]
  split_ifs <;> rfl

theorem keepsRevoked_rotateConnector (id tokenHash : String) (version : Option String) :
    KeepsRevoked .other (runStmt applyWrite (rotateConnector scope id tokenHash version)) := by
  intro d id' hl hr
  simp only [runStmt, rotateConnector, updateMany]
  split_ifs
  · exact hr
  · exact hr
  · have hrotate : KeepsRevoked .other (updateConnectors (rotatable scope id)
        fun c => { c with tokenHash := tokenHash, status := .PENDING, version := version.or c.version }) :=
      keepsRevoked_rotatable fun _ => rfl
    exact hrotate d id' hl hr

theorem keepsRevoked_createConnector (c : Connector) :
    KeepsRevoked .other (runStmt applyWrite (createConnector c)) := by
  rintro d id - ⟨⟨old, hold, hid⟩, hall⟩
  simp only [runStmt, createConnector]
  by_cases hclash : d.connectors.any (fun c' => c'.id = c.id || (c'.tenantId = c.tenantId && c'.tokenHash = c.tokenHash)) = true
  · simp only [hclash, if_true]
    exact ⟨⟨old, hold, hid⟩, hall⟩
  · have hne : c.id ≠ id := by
      rintro rfl
      exact hclash (List.any_eq_true.2 ⟨old, hold, by simp [hid]⟩)
    simp only [hclash]
    refine ⟨⟨old, List.mem_append_left _ hold, hid⟩, ?_⟩
    intro c' hc' hid'
    rcases List.mem_append.1 hc' with hc' | hc'
    · exact hall c' hc' hid'
    · rw [List.mem_singleton.1 hc'] at hid'
      exact absurd hid' hne

theorem all_revoke (id : String) : (revoke scope id).All KeepsRevoked := by
  refine all_reading fun d => ?_
  cases findConnector scope id d with
  | none => trivial
  | some c => exact all_writing (keepsRevoked_update (fun _ => rfl) fun _ _ _ _ => rfl) trivial

theorem all_repair (id : String) (invalidateNow : Bool) (fresh : RepairFresh) :
    (repair scope id invalidateNow fresh).All KeepsRevoked := by
  refine all_reading fun d => ?_
  cases findConnector scope id d with
  | none => trivial
  | some c =>
    simp only
    split_ifs with hcan hnow
    · refine all_writing (keepsRevoked_createPairing _ _ _ _) ⟨?_, fun _ => trivial⟩
      refine keepsRevoked_update (fun _ => rfl) fun c hsel _ hother => absurd ?_ hother
      simp only [hasId, Bool.and_eq_true, decide_eq_true_eq] at hsel
      rw [hsel.2]
    · exact all_writing (keepsRevoked_createPairing _ _ _ _) trivial
    · trivial

theorem keepsRevoked_pairConnector (env : Env) (scope : Scope) (fresh : Fresh) (p : ConnectorPairing) (info : PairMeta) :
    EachStmt (fun s => KeepsRevoked .other (runStmt applyWrite s)) (pairConnector env scope fresh p info) := by
  unfold pairConnector
  split
  · refine ⟨keepsRevoked_rotateConnector _ _ _ _, fun r => ?_⟩
    beta_reduce
    split
    · split_ifs <;> trivial
    · trivial
  · refine ⟨keepsRevoked_createConnector _, fun r => ?_⟩
    beta_reduce
    split <;> trivial

theorem keepsRevoked_redeemCallback (env : Env) (scope : Scope) (fresh : Fresh) (p : ConnectorPairing) (info : PairMeta) :
    EachStmt (fun s => KeepsRevoked .other (runStmt applyWrite s)) (redeemCallback env scope fresh p info) := by
  refine ⟨keepsRevoked_usePairing _ _ _, fun r => ?_⟩
  beta_reduce
  split
  · split_ifs
    · trivial
    · exact keepsRevoked_pairConnector env scope fresh p info
  · trivial

theorem all_redeemThread (env : Env) (multiTenant : Bool) (scope : Scope) (fresh : Fresh) (p : ConnectorPairing)
    (info : PairMeta) : (redeemThread env multiTenant scope fresh p info).All KeepsRevoked := by
  have hundo : (writing (unusePairing scope p.id) .done).All KeepsRevoked :=
    all_writing (keepsRevoked_unusePairing _ _) trivial
  refine all_ofProg applyWrite (keepsRevoked_redeemCallback env scope fresh p info) (fun _ => trivial) fun e => ?_
  cases e with
  | PAIRING_ALREADY_USED => trivial
  | CONNECTOR_GONE =>
    simp only
    split_ifs
    · trivial
    · exact hundo
  | INVITE_ALREADY_USED => exact hundo
  | sql => exact hundo

theorem all_redeem (env : Env) (multiTenant : Bool) (fresh : Fresh) (code : String) (info : PairMeta) :
    (redeem env multiTenant fresh code info).All KeepsRevoked := by
  refine all_reading fun d => ?_
  split
  · trivial
  · split_ifs
    · refine all_reading fun d' => ?_
      split
      · trivial
      · split_ifs
        · trivial
        · exact all_redeemThread _ _ _ _ _ _
    · exact all_redeemThread _ _ _ _ _ _

theorem all_handler (env : Env) (multiTenant : Bool) (h : Handler) : (h.thread env multiTenant).All KeepsRevoked := by
  cases h with
  | revoke scope id => exact all_revoke scope id
  | repair scope id invalidateNow fresh => exact all_repair scope id invalidateNow fresh
  | redeem fresh code info => exact all_redeem env multiTenant fresh code info
  | reportStatus scope id status version =>
    exact all_writing (keepsRevoked_rotatable fun _ => rfl) (all_reading fun _ => trivial)

/-! Tokens. -/

theorem validate_of_revokedIn {env : Env} {multiTenant : Bool} {scanned checked : Rows} {id : String}
    (hs : RevokedIn scanned id) (hc : RevokedIn checked id) (token : String) :
    validateConnectorToken env multiTenant scanned checked token ≠ some id := by
  unfold validateConnectorToken
  intro h
  split_ifs at h
  · split at h
    · cases h
    · split at h
      · cases h
      · rename_i c _ _ live hlive
        split_ifs at h with hstatus
        have hcid := Option.some.inj h
        have hlid : live.id = c.id := by
          have hfound := List.find?_some hlive
          simp only [hasId, Bool.and_eq_true, decide_eq_true_eq] at hfound
          exact hfound.2
        exact hstatus (hc.2 live (List.mem_of_find?_eq_some hlive) (hlid.trans hcid))
  · obtain ⟨c, hfound, hcid⟩ := Option.map_eq_some_iff.1 h
    have hlive := List.find?_some hfound
    rw [hs.2 c (List.mem_of_find?_eq_some hfound) hcid] at hlive
    simp at hlive

/-- Runs of any requests: a connector that is revoked stays so, and no later validation accepts a token
for it, as long as a re-pair invalidates no token of a connector that is revoked at that moment. -/
theorem revoked_is_final (env : Env) (multiTenant : Bool) (d : Rows) (handlers : ℕ → Handler) (id : String)
    (before after later : List ℕ)
    (hrun : Lib.Run.Meets Pool.step (Pool.Guarded NotRevoked) (requests env multiTenant d handlers)
      (before ++ (after ++ later)))
    (hrev : RevokedIn ((requests env multiTenant d handlers).run before).db id) :
    RevokedIn ((requests env multiTenant d handlers).run (before ++ after)).db id ∧
      ∀ token, validateConnectorToken env multiTenant ((requests env multiTenant d handlers).run (before ++ after)).db
        ((requests env multiTenant d handlers).run (before ++ (after ++ later))).db token ≠ some id := by
  have hall : ∀ i, ((requests env multiTenant d handlers).threads i).All KeepsRevoked := fun i => all_handler _ _ _
  have hkeep : ∀ l f, KeepsRevoked l f → ∀ d, NotRevoked l d → RevokedIn d id → RevokedIn (f d) id := by
    intro l f hf d hok hd
    apply hf d id _ hd
    rintro rfl
    exact hok hd
  obtain ⟨-, hafter⟩ := Lib.Run.meets_append.1 hrun
  have hstay : ∀ schedule, Lib.Run.Meets Pool.step (Pool.Guarded NotRevoked)
      ((requests env multiTenant d handlers).run before) schedule →
      RevokedIn ((requests env multiTenant d handlers).run (before ++ schedule)).db id := by
    intro schedule hmeets
    rw [Pool.run, List.foldl_append]
    exact run_invariant hkeep (all_run hall before) hrev hmeets
  have h1 := hstay after (Lib.Run.meets_append.1 hafter).1
  have h2 := hstay (after ++ later) hafter
  exact ⟨h1, fun token => validate_of_revokedIn h1 h2 token⟩

/-! One connector of a self-hosted installation, an admin who re-pairs it and one who revokes it. -/

/-- Tokens and codes in the clear. -/
def clearTextEnv : Env := ⟨fun token hash => token = hash, id, fun c => c = ' '⟩

def oneConnector : Rows :=
  ⟨[], [⟨"c1", "default", "office", "token", .ONLINE, none⟩], [], [], []⟩

/-- A re-pair of the connector with the code `code`, its revocation, the redemption of the code, and
a report that the connector is online. -/
def repairAndRevoke : ℕ → Handler
  | 0 => .repair none "c1" true ⟨"p1", "code", "throwaway", 0⟩
  | 1 => .revoke none "c1"
  | 2 => .redeem ⟨"fresh token", "fresh token", "c2", 1⟩ "code" ⟨none, none⟩
  | _ => .reportStatus none "c1" .ONLINE none

/-- The re-pair is over when the connector is revoked: its code redeems nothing and the report changes nothing. -/
theorem revoked_is_final_after_repair :
    Lib.Run.Meets Pool.step (Pool.Guarded NotRevoked) (requests clearTextEnv false oneConnector repairAndRevoke)
      ([0, 0, 0, 1, 1] ++ ([2, 2, 2, 2] ++ [3, 3])) ∧
    RevokedIn ((requests clearTextEnv false oneConnector repairAndRevoke).run ([0, 0, 0, 1, 1] ++ [2, 2, 2, 2])).db "c1" := by
  have hrun : Lib.Run.Meets Pool.step (Pool.Guarded NotRevoked)
      (requests clearTextEnv false oneConnector repairAndRevoke) ([0, 0, 0, 1, 1] ++ ([2, 2, 2, 2] ++ [3, 3])) := by
    decide +kernel
  exact ⟨hrun, (revoked_is_final clearTextEnv false oneConnector repairAndRevoke "c1" _ _ _ hrun (by decide +kernel)).1⟩

/-- The re-pair reads the status, the connector is revoked, and the re-pair writes `PENDING` over it: its
code then redeems to a token that validates. -/
theorem revoked_comes_back :
    RevokedIn ((requests clearTextEnv false oneConnector repairAndRevoke).run [0, 1, 1]).db "c1" ∧
    ¬ RevokedIn ((requests clearTextEnv false oneConnector repairAndRevoke).run [0, 1, 1, 0, 0]).db "c1" ∧
    validateConnectorToken clearTextEnv false
      ((requests clearTextEnv false oneConnector repairAndRevoke).run [0, 1, 1, 0, 0, 2, 2, 2]).db
      ((requests clearTextEnv false oneConnector repairAndRevoke).run [0, 1, 1, 0, 0, 2, 2, 2]).db "fresh token" = some "c1" := by
  refine ⟨?_, ?_, ?_⟩ <;> decide +kernel

end Captivo.Enroll
