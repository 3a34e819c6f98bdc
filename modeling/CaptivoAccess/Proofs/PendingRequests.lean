import CaptivoAccess.Lib.Claims
import CaptivoAccess.Proofs.GrantDecisions

/-! Pending requests of one user for one site. A request is made after a look at the table
that finds none pending, and nothing but that look stands in the way of a second one:
calls that overlap both find none. Where no call looks while another one has looked for
the same user and site and has not written yet, there is never more than one. -/

namespace Captivo.Access

open Lib.Dns Lib.Threads

/-- A pending request of the user for the site. -/
def pendingFor (k : Text × Text) (r : GrantRow) : Bool := r.userId = k.1 && r.siteId = k.2 && pendingWhere r

/-- At most one pending request for each user and site. -/
def OnePending (t : GrantTable) : Prop := ∀ k, t.rows.countP (pendingFor k) ≤ 1

/-- A call that found no pending request for a user and a site holds them until it writes. -/
def requestClaims : Claims GrantTable GrantStmt (Text × Text) where
  held
    | .create g => if g.requiresApproval then some (g.userId, g.siteId) else none
    | _ => none
  Free k t := t.rows.countP (pendingFor k) = 0
  Conflict k k' := k = k'
  symm _ _ h := h.symm

/-! Statements. -/

section Stmt

variable {t : GrantTable} {s : GrantStmt} {k : Text × Text}

theorem held_quiet (hs : s.Quiet) : requestClaims.held s = none := by
  cases s with
  | create g => simp [requestClaims, hs g rfl]
  | _ => rfl

theorem countP_updateMany {deed : Deed} {sel : GrantRow → Bool} {f : GrantRow → GrantRow}
    (hf : ∀ r, pendingFor k (f r) = true → pendingFor k r = true) :
    (t.updateMany deed sel f).rows.countP (pendingFor k) ≤ t.rows.countP (pendingFor k) := by
  rw [GrantTable.updateMany, List.countP_map]
  refine List.countP_mono_left fun r _ hr => ?_
  simp only [Function.comp_apply] at hr
  split_ifs at hr
  · exact hf r hr
  · exact hr

theorem countP_create (g : NewGrant) :
    (t.create g).rows.countP (pendingFor k) =
      t.rows.countP (pendingFor k) + if g.requiresApproval = true ∧ (g.userId, g.siteId) = k then 1 else 0 := by
  obtain ⟨u, site⟩ := k
  have hrow : pendingFor (u, site) (g.row t.nextId t.now) = true ↔ g.requiresApproval = true ∧ (g.userId, g.siteId) = (u, site) := by
    simp only [pendingFor, NewGrant.row, pendingWhere, Option.isNone_none, Bool.and_true, Bool.and_eq_true, Prod.mk.injEq]
    constructor
    · intro h
      exact ⟨h.2.2, of_decide_eq_true h.1.1, of_decide_eq_true h.1.2⟩
    · intro h
      exact ⟨⟨decide_eq_true h.2.1, decide_eq_true h.2.2⟩, rfl, h.1⟩
  rw [GrantTable.create, List.countP_append, List.countP_singleton]
  simp only [hrow]

theorem countP_quiet (hs : s.Quiet) : (s.apply t).rows.countP (pendingFor k) ≤ t.rows.countP (pendingFor k) := by
  cases s with
  | read => exact le_rfl
  | readSettings instead => exact le_rfl
  | create g =>
    rw [GrantStmt.apply, countP_create, if_neg fun h => Bool.false_ne_true ((hs g rfl).symm.trans h.1)]
    exact le_rfl
  | approve id adminId now => exact countP_updateMany fun r => by simp [pendingFor, pendingWhere]
  | deny id adminId now reason => exact countP_updateMany fun r => by simp [pendingFor, pendingWhere]
  | revoke id => exact countP_updateMany fun r => by simp [pendingFor, pendingWhere]
  | edit id endsAt note => exact countP_updateMany fun r hr => hr
  | withdraw id userId => exact List.filter_sublist.countP_le
  | directoryRevoke userId siteIds => exact countP_updateMany fun r => by simp [pendingFor, pendingWhere]
  | deprovision userId => exact countP_updateMany fun r => by simp [pendingFor, pendingWhere]
  | wait ms => exact le_rfl

end Stmt

/-! Threads. -/

/-- The thread holds nothing yet, and looks before it makes a request. -/
def Calm (thread : GrantThread) : Prop := thread.claim requestClaims.held = none ∧ requestClaims.Checks OnePending thread

theorem calm_exec {s : GrantStmt} (hs : s.Quiet) {next : GrantTable → GrantThread} (hnext : ∀ t, Calm (next t)) : Calm (exec s next) := by
  refine ⟨held_quiet hs, fun t => ⟨?_, ?_, ?_⟩, fun t => (hnext t).2⟩
  · intro hinv _ k
    exact (countP_quiet hs).trans (hinv k)
  · intro _ _ k hk
    rw [(hnext t).1] at hk
    cases hk
  · intro _ k hfree _
    exact Nat.le_zero.1 ((countP_quiet hs).trans hfree.le)

theorem checks_create {g : NewGrant} (hg : g.requiresApproval = true) : requestClaims.Checks OnePending (finish (.create g)) := by
  have hheld : requestClaims.held (.create g) = some (g.userId, g.siteId) := if_pos hg
  refine ⟨fun t => ⟨?_, ?_, ?_⟩, fun _ => trivial⟩
  · intro hinv hfree k
    have hnone : t.rows.countP (pendingFor (g.userId, g.siteId)) = 0 := hfree _ hheld
    rw [GrantStmt.apply, countP_create]
    split_ifs with hk
    · rw [← hk.2, hnone]
    · exact hinv k
  · intro _ _ k hk
    cases hk
  · intro _ k hfree hconflict
    rw [hheld] at hconflict
    have hne : ¬ (g.requiresApproval = true ∧ (g.userId, g.siteId) = k) := fun h => hconflict _ rfl h.2.symm
    change ((GrantTable.create g t).rows.countP (pendingFor k)) = 0
    rw [countP_create, if_neg hne]
    exact hfree

theorem calm_createAccessRequest (body : GrantBody) : Calm (createAccessRequest body) := by
  refine ⟨rfl, fun t => ⟨fun hinv _ => hinv, ?_, fun _ k hfree _ => hfree⟩, fun t => ?_⟩
  · intro _ _ k hk
    split_ifs at hk with hany
    · cases hk
    · obtain rfl : (body.userId, body.siteId) = k := Option.some.inj hk
      rw [Bool.not_eq_true, List.any_eq_false] at hany
      exact List.countP_eq_zero.2 hany
  · dsimp only
    split_ifs
    · exact trivial
    · exact checks_create rfl

theorem calm_thread (intl : Intl) (request : GrantRequest) : Calm (request.thread intl) := by
  have hclosed : Closed GrantStmt.Quiet Calm := ⟨⟨rfl, trivial⟩, fun _ _ hs hnext => calm_exec hs hnext⟩
  exact hclosed.thread calm_createAccessRequest intl request

/-- A request for the ERP. -/
def erpRequest : GrantBody := ⟨"u".toList, "erp".toList, none, none, none, none, true⟩

/-- Calls for the ERP, all alike. -/
def erpCalls : Pool GrantTable GrantStmt := ⟨noGrants 0 none, fun _ => createAccessRequest erpRequest⟩

end Captivo.Access
