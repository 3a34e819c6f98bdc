import CaptivoAccess.Spec.Enrollment

/-! A callback of `db.$transaction` that throws. Self-hosted its writes are rolled back;
in multi-tenant mode they stay in the request's transaction, and are committed with it
when the caller handles the error. -/

namespace Captivo.TenantTx

open Lib.Txn

section Atomic

variable {D W R E A B : Type} (apply : D → W → D)

/-- A callback that, run in a transaction of its own, writes nothing before it throws. -/
def Quiet (c : D × Prog D W R E A) : Prop :=
  ∀ e, (exec apply c.1 false c.2).value = .error e → (exec apply c.1 false c.2).writes = []

/-- A statement of the request, or of a callback in it, fails on the database that it meets. -/
def statementFails : D → Request D W R E A B → Bool
  | _, .ret _ => false
  | _, .throw _ => false
  | d, .stmt s k =>
    match s d with
    | none => true
    | some (ws, r) => statementFails (ws.foldl apply d) (k (some r))
  | d, .outside ws k => statementFails (ws.foldl apply d) k
  | d, .transaction callback k =>
    let r := exec apply d false callback
    fails apply d callback || statementFails r.db (k r.value)

theorem runAmbient_aborted (d : D) (req : Request D W R E A B) : (runAmbient apply d true req).aborted = true := by
  induction req generalizing d with
  | ret b => rfl
  | throw e => rfl
  | stmt s k ih => exact ih none d
  | outside ws k ih => exact ih _
  | transaction callback k ih =>
    simp only [runAmbient, Trace.after]
    rw [(exec_aborted apply d callback).1]
    exact ih _ _

variable {req : Request D W R E A B}

theorem not_aborted_of_runAmbient {d : D} {aborted : Bool}
    (h : (runAmbient apply d aborted req).aborted = false) : aborted = false := by
  cases aborted with
  | false => rfl
  | true =>
    rw [runAmbient_aborted] at h
    cases h

theorem aborted_eq_statementFails (d : D) (req : Request D W R E A B) :
    (runAmbient apply d false req).aborted = statementFails apply d req := by
  induction req generalizing d with
  | ret b => rfl
  | throw e => rfl
  | stmt s k ih =>
    cases hs : s d with
    | none => simp [runAmbient, statementFails, answer, hs, runAmbient_aborted]
    | some out => simp [runAmbient, statementFails, answer, hs, Trace.after, ih]
  | outside ws k ih => exact ih _
  | transaction callback k ih =>
    simp only [runAmbient, statementFails, Trace.after, ← aborted_eq_fails]
    cases (exec apply d false callback).aborted with
    | true => rw [runAmbient_aborted, Bool.true_or]
    | false => rw [ih, Bool.false_or]

theorem threw_not_mem_journal {o : Origin} (ho : o ≠ .threw) (ws : List W) (w : W) :
    (Origin.threw, w) ∉ journal o ws := by
  intro h
  obtain ⟨w', -, hw⟩ := List.mem_map.1 h
  exact ho (congrArg Prod.fst hw)

/-- The writes of a callback in the journal are those of one that threw exactly when it is not quiet. -/
theorem quiet_iff (d : D) (callback : Prog D W R E A) :
    (∀ w, (Origin.threw, w) ∉
        journal (originOf (exec apply d false callback).value) (exec apply d false callback).writes) ↔
      Quiet apply (d, callback) := by
  cases hv : (exec apply d false callback).value with
  | ok a =>
    refine ⟨fun _ e he => ?_, fun _ => threw_not_mem_journal (by simp [originOf]) _⟩
    rw [hv] at he
    cases he
  | error e =>
    refine ⟨fun h _ _ => ?_, fun h w => ?_⟩
    · rw [List.eq_nil_iff_forall_not_mem]
      intro w hw
      exact h w (List.mem_map_of_mem hw)
    · rw [h e hv]
      simp [journal]

theorem threw_writes_iff {d : D} (h : (runAmbient apply d false req).aborted = false) :
    (∀ w, (Origin.threw, w) ∉ (runAmbient apply d false req).journal) ↔
      ∀ c ∈ callbacks apply d false req, Quiet apply c := by
  induction req generalizing d with
  | ret b => simp [runAmbient, callbacks]
  | throw e => simp [runAmbient, callbacks]
  | stmt s k ih =>
    cases hs : s d with
    | none =>
      -- the failed statement has aborted the transaction
      have hab : (runAmbient apply d true (k none)).aborted = false := by simpa [runAmbient, answer, hs] using h
      rw [runAmbient_aborted] at hab
      cases hab
    | some out =>
      simp only [runAmbient, callbacks, answer, hs, Bool.false_eq_true, if_false, Trace.after] at h ⊢
      rw [← ih (some out.2) h]
      refine forall_congr' fun w => ?_
      rw [List.mem_append, not_or, and_iff_right (threw_not_mem_journal (by simp) _ _)]
  | outside ws k ih =>
    simp only [runAmbient, callbacks, Trace.after] at h ⊢
    rw [← ih h]
    refine forall_congr' fun w => ?_
    rw [List.mem_append, not_or, and_iff_right (threw_not_mem_journal (by simp) _ _)]
  | transaction callback k ih =>
    simp only [runAmbient, callbacks, Trace.after, List.forall_mem_cons] at h ⊢
    have hr := not_aborted_of_runAmbient apply h
    rw [hr] at h ⊢
    rw [← ih _ h, ← quiet_iff, ← forall_and]
    refine forall_congr' fun w => ?_
    rw [List.mem_append, not_or]

/-- A request that completes commits no write of a callback that threw exactly when a
statement of it fails, or every callback is quiet. -/
theorem withTenant_atomic_iff {d : D} {b : B} (h : (withTenant apply d req).2 = .ok b) :
    (∀ w, (Origin.threw, w) ∉ (withTenant apply d req).1) ↔
      statementFails apply d req = true ∨ ∀ c ∈ callbacks apply d false req, Quiet apply c := by
  have hv : (runAmbient apply d false req).value = .ok b := by
    unfold withTenant at h
    cases hv : (runAmbient apply d false req).value with
    | ok b' => simpa [hv] using h
    | error e => simp [hv] at h
  rw [← aborted_eq_statementFails]
  cases hab : (runAmbient apply d false req).aborted with
  | true => simp [withTenant, hv, hab]
  | false => simp [withTenant, hv, hab, threw_writes_iff apply hab]

/-- The request itself has changed nothing. -/
def Unchanged (d : D) (j : Journal W) : Prop := commit apply d j = commit apply d (j.filter (·.1 = .others))

end Atomic

end Captivo.TenantTx
