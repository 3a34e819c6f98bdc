import CaptivoAccess.Spec.DirectorySync

/-! Which failures a directory sync takes for an answer. It stops at every read that fails but one:
where the group mappings cannot be read there seem to be none, and a user whom the
directory manages is in no mapped group. -/

namespace Captivo.Directory

open Captivo.RecFetch (Text)
open Captivo.Users (computeReconcile)

/-- The directory answered, without an error. -/
def Outcomes.Definitive (o : Outcomes) : Prop := ∃ answer, o.resolved = some answer ∧ answer.error = []

/-- A sync goes on to the mappings, unless the user was verified a short time ago. -/
structure Outcomes.Reaches (o : Outcomes) (throttleMs : ℤ) : Prop where
  configured : ∃ cfg : DirectoryConfig, o.config = some (some cfg) ∧ cfg.enabled = true ∧ cfg.connectorId.any (· ≠ []) = true
  lastVerified : 0 < throttleMs → o.lastVerified = true
  bindPassword : o.bindPassword = true
  definitive : o.Definitive

/-- The users and the grants are as they were. -/
def Unchanged (s s' : SyncState) : Prop := s'.users = s.users ∧ s'.grants = s.grants

theorem unchanged_refl (s : SyncState) : Unchanged s s := ⟨rfl, rfl⟩

theorem unchanged_stamp (id : Text) (now : ℤ) (s : SyncState) : Unchanged s (stamp id now s) := ⟨rfl, rfl⟩

theorem computeReconcile_nil (lower : Text → Text) (groups : List Text) (managed : Bool) :
    computeReconcile lower groups [] managed = ⟨managed, none, []⟩ := rfl

section Sync

variable {lower : Text → Text} {throttleMs : ℤ} {user : DirectoryUser} {o : Outcomes} {now : ℤ} {s : SyncState}

theorem syncUserAtLogin_cases :
    Unchanged s (syncUserAtLogin lower throttleMs user o now s).state ∨
      o.Reaches throttleMs ∧ ∃ groups, syncUserAtLogin lower throttleMs user o now s =
        applyDecision user o now (computeReconcile lower groups (listGroupMappingsLite o.mappings) user.directoryManaged) s := by
  rw [syncUserAtLogin]
  cases hconfig : o.config with
  | none => exact Or.inl (unchanged_refl s)
  | some cfg =>
    dsimp only
    split_ifs with hcfg hthrottle hskip hbind
    · exact Or.inl (unchanged_refl s)
    · exact Or.inl (unchanged_refl s)
    · exact Or.inl (unchanged_refl s)
    · exact Or.inl (unchanged_refl s)
    · cases hresolved : o.resolved with
      | none => exact Or.inl (unchanged_refl s)
      | some answer =>
        dsimp only
        by_cases herror : answer.error = []
        · rw [if_neg (not_not.2 herror)]
          refine Or.inr ⟨⟨?_, fun hpos => ?_, Bool.not_eq_false _ ▸ hbind, answer, hresolved, herror⟩, _, rfl⟩
          · rw [Bool.not_eq_false, Option.any_eq_true] at hcfg
            obtain ⟨c, rfl, hc⟩ := hcfg
            rw [Bool.and_eq_true] at hc
            exact ⟨c, hconfig, hc⟩
          · by_contra hread
            exact hthrottle ⟨hpos, Bool.not_eq_true _ ▸ hread⟩
        · rw [if_pos herror]
          exact Or.inl (unchanged_refl s)

theorem syncUserAtLogin_reaches {answer : DirectoryAnswer} (h : o.Reaches throttleMs) (hnever : s.verifiedAt user.id = none)
    (hresolved : o.resolved = some answer) :
    syncUserAtLogin lower throttleMs user o now s =
      applyDecision user o now (computeReconcile lower (if answer.found then answer.memberOf.getD [] else [])
        (listGroupMappingsLite o.mappings) user.directoryManaged) s := by
  obtain ⟨⟨cfg, hconfig, henabled, hconnector⟩, hlast, hbind, answer', hanswer, herror⟩ := h
  obtain rfl : answer = answer' := Option.some.inj (hresolved.symm.trans hanswer)
  have hthrottle : ¬ (0 < throttleMs ∧ o.lastVerified = false) := fun h => by
    rw [hlast h.1] at h
    exact Bool.false_ne_true h.2.symm
  have hskip : shouldSkipSync (s.verifiedAt user.id) now throttleMs = false := by simp [shouldSkipSync, hnever]
  rw [syncUserAtLogin, hconfig]
  simp only [Option.any_some, henabled, hconnector, Bool.and_self, hskip, hbind, hresolved, herror]
  exact if_neg hthrottle

theorem applyDecision_failed {decision : Users.ReconcileDecision} {rows : List GroupMappingRow} (hmappings : o.mappings = some rows)
    (hfailed : (applyDecision user o now decision s).failed = true) : Unchanged s (applyDecision user o now decision s).state := by
  rw [applyDecision, hmappings] at hfailed ⊢
  split_ifs at hfailed ⊢ <;> first | exact unchanged_refl s | cases hfailed

/-- Mappings that were not read change nothing about a user whom the directory does not manage, nor in a transaction. -/
theorem applyDecision_unread {groups : List Text} (hmappings : o.mappings = none)
    (hspared : ¬ (user.directoryManaged = true ∧ o.writable = true)) :
    Unchanged s (applyDecision user o now (computeReconcile lower groups (listGroupMappingsLite o.mappings) user.directoryManaged) s).state := by
  rw [hmappings, listGroupMappingsLite, computeReconcile_nil, applyDecision]
  by_cases hmanaged : user.directoryManaged = true
  · rw [if_pos hmanaged]
    split_ifs with hwritable
    · exact absurd ⟨hmanaged, hwritable⟩ hspared
    · exact unchanged_refl s
  · rw [if_neg hmanaged, if_pos ⟨rfl, rfl⟩]
    dsimp only
    split_ifs
    · exact unchanged_stamp _ _ s
    · exact unchanged_refl s

end Sync

/-- The mappings cannot be read, and the user is disabled for it. -/
structure Outcomes.TakesAbsence (o : Outcomes) (throttleMs : ℤ) (user : DirectoryUser) : Prop where
  reaches : o.Reaches throttleMs
  unread : o.mappings = none
  managed : user.directoryManaged = true
  writes : o.writes = true
  alone : o.inTransaction = false

/-- One active user, never verified. -/
def soleUser (user : DirectoryUser) : SyncState :=
  ⟨[⟨user.id, user.role, .ACTIVE, user.directoryManaged, none⟩], Access.noGrants 0 none, fun _ => none⟩

/-- Whatever becomes of the reads: in every state users and grants change only after a definitive answer and with the mappings read, and not
at all where a read has failed, if and only if it is not the mappings that could not be read in a sync of a managed user that comes so far,
outside a transaction. -/
theorem sync_fails_open_iff (lower : Text → Text) (throttleMs : ℤ) (user : DirectoryUser) (o : Outcomes) (now : ℤ) :
    (∀ s, (¬ Unchanged s (syncUserAtLogin lower throttleMs user o now s).state → o.Definitive ∧ o.mappings ≠ none) ∧
      ((syncUserAtLogin lower throttleMs user o now s).failed = true →
        Unchanged s (syncUserAtLogin lower throttleMs user o now s).state)) ↔
      ¬ o.TakesAbsence throttleMs user := by
  constructor
  · rintro hsafe ⟨hreaches, hunread, hmanaged, hwrites, halone⟩
    have hwritable : o.writable = true := by simp [Outcomes.writable, hwrites, halone]
    obtain ⟨answer, hresolved, -⟩ := hreaches.definitive
    have hrun : syncUserAtLogin lower throttleMs user o now (soleUser user) =
        ⟨deprovision user.id now (soleUser user), .returned true, true⟩ := by
      rw [syncUserAtLogin_reaches hreaches rfl hresolved, hunread, listGroupMappingsLite, computeReconcile_nil, applyDecision,
        if_pos hmanaged, if_pos hwritable, hunread]
      rfl
    have hkept := ((hsafe (soleUser user)).2 (by rw [hrun])).1
    rw [hrun] at hkept
    simp [deprovision, stamp, soleUser, Users.UserStmt.apply, Users.updateUser] at hkept
  · intro hspared s
    rcases @syncUserAtLogin_cases lower throttleMs user o now s with hsame | ⟨hreaches, groups, hrun⟩
    · exact ⟨fun hchanged => absurd hsame hchanged, fun _ => hsame⟩
    · rw [hrun]
      cases hmappings : o.mappings with
      | some rows =>
        rw [← hmappings]
        exact ⟨fun _ => ⟨hreaches.definitive, by simp [hmappings]⟩, applyDecision_failed hmappings⟩
      | none =>
        have hunchanged : Unchanged s (applyDecision user o now
            (computeReconcile lower groups (listGroupMappingsLite o.mappings) user.directoryManaged) s).state := by
          refine applyDecision_unread hmappings fun ⟨hmanaged, hwritable⟩ => ?_
          rw [Outcomes.writable, hmappings, Option.isNone_none, Bool.and_true, Bool.and_eq_true, Bool.not_eq_true'] at hwritable
          exact hspared ⟨hreaches, hmappings, hmanaged, hwritable.1, hwritable.2⟩
        rw [hmappings] at hunchanged
        exact ⟨fun hchanged => absurd hunchanged hchanged, fun _ => hunchanged⟩

/-- Everything is read but the mappings. -/
def unreadMappings : Outcomes :=
  ⟨some (some ⟨true, some "c".toList⟩), true, true, some ⟨true, some ["CN=Operators,DC=corp".toList], []⟩, none, true, true, false⟩

/-- An operator with a grant. -/
def operator : DirectoryUser := ⟨"u".toList, .OPERATOR, true⟩

def operatorState : SyncState :=
  { soleUser operator with
    grants := (Access.createGrant ⟨"u".toList, "erp".toList, none, none, none, none, true⟩ "a".toList).alone (Access.noGrants 0 none) }

/-- Who is in the operators' group is disabled, and the grant is revoked. -/
theorem unread_mappings_disable :
    (syncUserAtLogin id 0 operator unreadMappings 0 operatorState).result = .returned true ∧
      (syncUserAtLogin id 0 operator unreadMappings 0 operatorState).state.users.map Users.User.status = [.DISABLED] ∧
      operatorState.grants.rows.map (fun r => r.status) = [.ACTIVE] ∧
      (syncUserAtLogin id 0 operator unreadMappings 0 operatorState).state.grants.rows.map (fun r => r.status) = [.REVOKED] := by
  decide +kernel

end Captivo.Directory
