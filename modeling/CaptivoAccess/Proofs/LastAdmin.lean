import CaptivoAccess.Spec.UserAdmin

/-! The last administrator. The console's guards keep its user from acting on their own
account, so an administrator remains as long as whoever acts is one when the write is made.
They are read at the start of a request, and a directory sync has no such guard at all. -/

namespace Captivo.Users

open Lib.Threads
open Captivo.Enroll (Role)
open Captivo.RecFetch (Text)

/-- The user is an administrator and active. -/
def ActiveAdmin (u : User) : Prop := u.role = .ADMIN ∧ u.status = .ACTIVE
  deriving Decidable

def HasAdmin (d : Table) : Prop := ∃ u ∈ d, ActiveAdmin u
  deriving Decidable

/-- The user with this id is one. -/
def ActsAsAdmin (d : Table) (id : Text) : Prop := ∃ u ∈ d, u.id = id ∧ ActiveAdmin u
  deriving Decidable

/-- If the user with this id is one, there is another. -/
def NotLast (d : Table) (id : Text) : Prop := ActsAsAdmin d id → ∃ u ∈ d, u.id ≠ id ∧ ActiveAdmin u
  deriving Decidable

/-- Who acts in the console is an active administrator at the write, and a directory sync neither takes the role of the
last one nor disables them. -/
def KeepsAdmin : UserStmt → Table → Prop
  | .read, _ => True
  | .update actor _ _ _, d => ActsAsAdmin d actor
  | .delete actor _, d => ActsAsAdmin d actor
  | .provision id role, d => role = none ∨ role = some .ADMIN ∨ NotLast d id
  | .deprovision id, d => NotLast d id

instance : ∀ s d, Decidable (KeepsAdmin s d)
  | .read, _ => inferInstanceAs (Decidable True)
  | .update actor _ _ _, d => inferInstanceAs (Decidable (ActsAsAdmin d actor))
  | .delete actor _, d => inferInstanceAs (Decidable (ActsAsAdmin d actor))
  | .provision id role, d => inferInstanceAs (Decidable (role = none ∨ role = some .ADMIN ∨ NotLast d id))
  | .deprovision id, d => inferInstanceAs (Decidable (NotLast d id))

/-- What the guards of the console leave: nobody disables, demotes or deletes themselves. -/
def Guards : UserStmt → Prop
  | .update actor target status role => target = actor → status ≠ some .DISABLED ∧ role = none
  | .delete actor target => target ≠ actor
  | _ => True

def Guarded (s : UserStmt) (f : Table → Table) : Prop := f = s.apply ∧ Guards s

/-! Requests. -/

theorem all_exec {s : UserStmt} {next : Table → UserThread} (h : Guards s) (hnext : ∀ d, (next d).All Guarded) :
    (exec s next).All Guarded := ⟨⟨rfl, h⟩, hnext⟩

theorem all_finish {s : UserStmt} (h : Guards s) : (finish s).All Guarded := all_exec h fun _ => trivial

theorem all_asAdmin {actor : Text} {next : User → UserThread} (h : ∀ admin, (next admin).All Guarded) :
    (asAdmin actor next).All Guarded := by
  refine all_exec trivial fun d => ?_
  split
  · trivial
  · split_ifs
    · exact h _
    · trivial

theorem all_patchUser (actor id : Text) (status role : Option Text) : (patchUser actor id status role).All Guarded := by
  refine all_asAdmin fun admin => ?_
  split_ifs
  · trivial
  · split
    · rename_i status role _ _
      split_ifs with hself
      · trivial
      · refine all_exec trivial fun d => ?_
        split
        · trivial
        · split_ifs
          · refine all_finish fun hid => ?_
            -- on the own account neither the status `DISABLED` nor a role has passed
            rw [not_and] at hself
            have := hself hid
            rw [not_or, Bool.not_eq_true, Option.isSome_eq_false_iff, Option.isNone_iff_eq_none] at this
            exact this
          · trivial
    · trivial

theorem all_deleteUser (actor id : Text) : (deleteUser actor id).All Guarded := by
  refine all_asAdmin fun admin => ?_
  split_ifs with hself
  · trivial
  · refine all_exec trivial fun d => ?_
    split
    · trivial
    · split_ifs
      · trivial
      · exact all_finish hself

theorem all_syncUserAtLogin (lower : Text → Text) (id : Text) (groups : List Text) (mappings : List Mapping) :
    (syncUserAtLogin lower id groups mappings).All Guarded := by
  refine all_exec trivial fun d => ?_
  split
  · trivial
  · simp only
    split_ifs
    · trivial
    · exact all_finish trivial
    · trivial
    · exact all_finish trivial

theorem all_thread (lower : Text → Text) (request : UserRequest) : (request.thread lower).All Guarded := by
  cases request with
  | patch actor id status role => exact all_patchUser actor id status role
  | delete actor id => exact all_deleteUser actor id
  | signIn id groups mappings => exact all_syncUserAtLogin lower id groups mappings

/-! Statements. -/

theorem mem_updateUser {u : User} {d : Table} {id : Text} (hu : u ∈ d) (hne : u.id ≠ id) (f : User → User) :
    u ∈ updateUser id f d := List.mem_map.2 ⟨u, hu, if_neg hne⟩

theorem hasAdmin_updateUser {d : Table} (h : HasAdmin d) {f : User → User} (hf : ∀ u, ActiveAdmin u → ActiveAdmin (f u)) (id : Text) :
    HasAdmin (updateUser id f d) := by
  obtain ⟨u, hu, hadmin⟩ := h
  refine ⟨if u.id = id then f u else u, List.mem_map.2 ⟨u, hu, rfl⟩, ?_⟩
  split_ifs
  · exact hf u hadmin
  · exact hadmin

theorem hasAdmin_updateUser_notLast {d : Table} (h : HasAdmin d) {id : Text} (hlast : NotLast d id) (f : User → User) :
    HasAdmin (updateUser id f d) := by
  obtain ⟨u, hu, hadmin⟩ := h
  by_cases hid : u.id = id
  · obtain ⟨other, hother, hne, hadmin'⟩ := hlast ⟨u, hu, hid, hadmin⟩
    exact ⟨other, mem_updateUser hother hne f, hadmin'⟩
  · exact ⟨u, mem_updateUser hu hid f, hadmin⟩

theorem hasAdmin_apply {s : UserStmt} (hguard : Guards s) {d : Table} (hok : KeepsAdmin s d) (h : HasAdmin d) : HasAdmin (s.apply d) := by
  cases s with
  | read => exact h
  | update actor target status role =>
    by_cases hself : target = actor
    · obtain ⟨hstatus, hrole⟩ := hguard hself
      have hkeep : ∀ u, ActiveAdmin u → ActiveAdmin { u with status := status.getD u.status, role := role.getD u.role } := by
        intro u hadmin
        cases status with
        | none => exact ⟨hrole ▸ hadmin.1, hadmin.2⟩
        | some status =>
          cases status with
          | ACTIVE => exact ⟨hrole ▸ hadmin.1, rfl⟩
          | DISABLED => exact absurd rfl hstatus
      exact hasAdmin_updateUser h hkeep target
    · -- whoever acts is not touched by it
      obtain ⟨u, hu, hid, hadmin⟩ := hok
      exact ⟨u, mem_updateUser hu (hid.trans_ne (Ne.symm hself)) _, hadmin⟩
  | delete actor target =>
    obtain ⟨u, hu, hid, hadmin⟩ := hok
    exact ⟨u, List.mem_filter.2 ⟨hu, decide_eq_true (hid.trans_ne (Ne.symm hguard))⟩, hadmin⟩
  | provision id role =>
    rcases hok with hrole | hrole | hlast
    · have hkeep : ∀ u, ActiveAdmin u → ActiveAdmin { u with directoryManaged := true, role := role.getD u.role } :=
        fun u hadmin => ⟨hrole ▸ hadmin.1, hadmin.2⟩
      exact hasAdmin_updateUser h hkeep id
    · have hkeep : ∀ u, ActiveAdmin u → ActiveAdmin { u with directoryManaged := true, role := role.getD u.role } :=
        fun u hadmin => ⟨hrole ▸ rfl, hadmin.2⟩
      exact hasAdmin_updateUser h hkeep id
    · exact hasAdmin_updateUser_notLast h hlast _
  | deprovision id => exact hasAdmin_updateUser_notLast h hok _

/-- An administrator remains in every interleaving in which whoever acts is still an active administrator at the write,
and no directory sync takes the last one away. -/
theorem admin_remains (lower : Text → Text) (d : Table) (requests : ℕ → UserRequest) (schedule : List ℕ) (hstart : HasAdmin d)
    (hrun : Lib.Run.Meets Pool.step (Pool.Guarded KeepsAdmin) (userPool lower d requests) schedule) :
    HasAdmin ((userPool lower d requests).run schedule).db := by
  have hkeep : ∀ s f, Guarded s f → ∀ d, KeepsAdmin s d → HasAdmin d → HasAdmin (f d) := by
    rintro s f ⟨rfl, hguard⟩ d hok h
    exact hasAdmin_apply hguard hok h
  exact run_invariant hkeep (fun i => all_thread lower (requests i)) hstart hrun

/-! Two administrators, and what they ask for. -/

def firstAdmin : User := ⟨"a".toList, .ADMIN, .ACTIVE, false, none⟩

def secondAdmin : User := ⟨"b".toList, .ADMIN, .ACTIVE, false, none⟩

/-- Each of the two disables the other. -/
def mutualDisable : ℕ → UserRequest
  | 0 => .patch firstAdmin.id secondAdmin.id (some "DISABLED".toList) none
  | _ => .patch secondAdmin.id firstAdmin.id (some "DISABLED".toList) none

/-- A sign-in of the first in a group that is mapped to operators. -/
def operatorSignIn (_ : ℕ) : UserRequest :=
  .signIn firstAdmin.id ["cn=ops,dc=x".toList] [⟨.role .OPERATOR, "ops".toList, true⟩]

/-- One after the other, the second is refused; and as long as there is another, the first may be demoted. -/
theorem admin_remains_in_turn :
    HasAdmin ((userPool id [firstAdmin, secondAdmin] mutualDisable).run [0, 0, 0, 1, 1, 1]).db ∧
      HasAdmin ((userPool id [firstAdmin, secondAdmin] operatorSignIn).run [0, 0]).db :=
  ⟨admin_remains id _ _ _ (by decide) (by decide +kernel), admin_remains id _ _ _ (by decide) (by decide +kernel)⟩

/-- Two administrators who disable each other at once, and the only one demoted at sign-in: nobody is left. -/
theorem last_admin_lost :
    ¬ HasAdmin ((userPool id [firstAdmin, secondAdmin] mutualDisable).run [0, 0, 1, 1, 0, 1]).db ∧
      ¬ HasAdmin ((userPool id [firstAdmin] operatorSignIn).run [0, 0]).db := by
  decide +kernel

end Captivo.Users
