import CaptivoAccess.Spec.DirectorySync

/-! The decision of a directory sync. It is about the sets of the groups and of the mappings, and
grows with the groups. -/

namespace Captivo.Directory

open Captivo.Enroll (Role)
open Captivo.RecFetch (Text)
open Captivo.Users

/-- A mapping whose role, if it gives one, is a role of the console. -/
structure MappingLite extends Mapping where
  console : ∀ r, toMapping.role? = some r → r ∈ CONSOLE_ROLES

section Reconcile

variable (lower : Text → Text) (groups : List Text) (mappings : List MappingLite)

/-- `computeReconcile`, of mappings as they are read. -/
def reconcile (managed : Bool) : ReconcileDecision := computeReconcile lower groups (mappings.map MappingLite.toMapping) managed

/-- A mapping that applies gives `r`. -/
def GivesRole (r : Role) : Prop := ∃ m ∈ mappings, m.toMapping.applies lower groups = true ∧ m.toMapping.role? = some r

def GivesSite (s : Text) : Prop := ∃ m ∈ mappings, m.toMapping.applies lower groups = true ∧ m.toMapping.site? = some s

/-- Some mapping gives `r` and none a higher role. -/
structure HighestRole (r : Role) : Prop where
  given : GivesRole lower groups mappings r
  highest : ∀ r', GivesRole lower groups mappings r' → roleRank r' ≤ roleRank r

/-- What is decided: the highest role that is given, or that of the staff where there are sites only. -/
def Decided (r : Role) : Prop :=
  HighestRole lower groups mappings r ∨
    r = .STAFF ∧ (∀ r', ¬ GivesRole lower groups mappings r') ∧ ∃ s, GivesSite lower groups mappings s

variable {lower groups mappings}

/-! The loop over the roles. -/

theorem best_spec (first : Role) (rest : List Role) :
    rest.foldl (fun best r => if roleRank best < roleRank r then r else best) first ∈ first :: rest ∧
      ∀ r ∈ first :: rest, roleRank r ≤ roleRank (rest.foldl (fun best r => if roleRank best < roleRank r then r else best) first) := by
  induction rest generalizing first with
  | nil => exact ⟨List.mem_singleton_self first, fun r hr => (congrArg roleRank (List.mem_singleton.1 hr)).le⟩
  | cons next rest ih =>
    obtain ⟨hmem, hmax⟩ := ih (if roleRank first < roleRank next then next else first)
    obtain ⟨hkept, hrest⟩ := List.forall_mem_cons.1 hmax
    rw [List.foldl_cons]
    constructor
    · rcases List.mem_cons.1 hmem with heq | hmem
      · rw [heq]
        split_ifs
        · exact List.mem_cons_of_mem _ List.mem_cons_self
        · exact List.mem_cons_self
      · exact List.mem_cons_of_mem _ (List.mem_cons_of_mem _ hmem)
    · have hpair : roleRank first ≤ roleRank (if roleRank first < roleRank next then next else first) ∧
          roleRank next ≤ roleRank (if roleRank first < roleRank next then next else first) := by
        split_ifs <;> omega
      exact List.forall_mem_cons.2 ⟨hpair.1.trans hkept, List.forall_mem_cons.2 ⟨hpair.2.trans hkept, hrest⟩⟩

theorem roleRank_inj {r r' : Role} (hr : r ∈ CONSOLE_ROLES) (hr' : r' ∈ CONSOLE_ROLES) (h : roleRank r = roleRank r') : r = r' := by
  simp only [CONSOLE_ROLES, List.mem_cons, List.not_mem_nil, or_false] at hr hr'
  rcases hr with rfl | rfl | rfl <;> rcases hr' with rfl | rfl | rfl <;> first | rfl | cases h

theorem GivesRole.console {r : Role} (h : GivesRole lower groups mappings r) : r ∈ CONSOLE_ROLES := by
  obtain ⟨m, -, -, hrole⟩ := h
  exact m.console r hrole

theorem HighestRole.unique {r r' : Role} (h : HighestRole lower groups mappings r) (h' : HighestRole lower groups mappings r') : r = r' :=
  roleRank_inj h.given.console h'.given.console ((h'.highest r h.given).antisymm (h.highest r' h'.given))

theorem Decided.unique {r r' : Role} (h : Decided lower groups mappings r) (h' : Decided lower groups mappings r') : r = r' := by
  rcases h with h | ⟨rfl, hnone, -⟩ <;> rcases h' with h' | ⟨rfl, hnone', -⟩
  · exact h.unique h'
  · exact absurd h.given (hnone' r)
  · exact absurd h'.given (hnone r')
  · rfl

/-! What is decided. -/

theorem mem_matched_filterMap {β : Type} (f : Mapping → Option β) (x : β) :
    x ∈ ((mappings.map MappingLite.toMapping).filter (Mapping.applies lower groups)).filterMap f ↔
      ∃ m ∈ mappings, m.toMapping.applies lower groups = true ∧ f m.toMapping = some x := by
  rw [List.mem_filterMap]
  constructor
  · rintro ⟨_, hmatched, hx⟩
    obtain ⟨hmem, happlies⟩ := List.mem_filter.1 hmatched
    obtain ⟨m, hm, rfl⟩ := List.mem_map.1 hmem
    exact ⟨m, hm, happlies, hx⟩
  · rintro ⟨m, hm, happlies, hx⟩
    exact ⟨m.toMapping, List.mem_filter.2 ⟨List.mem_map_of_mem hm, happlies⟩, hx⟩

theorem matched_eq_nil : (mappings.map MappingLite.toMapping).filter (Mapping.applies lower groups) = [] ↔
    ∀ m ∈ mappings, m.toMapping.applies lower groups = false := by
  rw [List.filter_eq_nil_iff, List.forall_mem_map]
  simp only [Bool.not_eq_true]

theorem deprovision_iff (managed : Bool) : (reconcile lower groups mappings managed).deprovision = true ↔
    managed = true ∧ ∀ m ∈ mappings, m.toMapping.applies lower groups = false := by
  rw [← matched_eq_nil, reconcile, computeReconcile]
  split <;> simp_all

theorem mem_grantSiteIds (managed : Bool) (s : Text) : s ∈ (reconcile lower groups mappings managed).grantSiteIds ↔
    GivesSite lower groups mappings s := by
  rw [GivesSite, ← mem_matched_filterMap, reconcile, computeReconcile]
  split
  · next hnil => simp [hnil]
  · exact List.mem_eraseDups

theorem not_mem_matched {β : Type} (f : Mapping → Option β)
    (h : ((mappings.map MappingLite.toMapping).filter (Mapping.applies lower groups)).filterMap f = []) (x : β) :
    ¬ ∃ m ∈ mappings, m.toMapping.applies lower groups = true ∧ f m.toMapping = some x := by
  rw [← mem_matched_filterMap, h]
  exact List.not_mem_nil

/-- The role that the loop arrives at is decided; where it arrives at none, no mapping applies. -/
theorem role_spec (managed : Bool) :
    (∃ r, (reconcile lower groups mappings managed).role = some r ∧ Decided lower groups mappings r) ∨
      (reconcile lower groups mappings managed).role = none ∧ (∀ r, ¬ GivesRole lower groups mappings r) ∧
        ∀ s, ¬ GivesSite lower groups mappings s := by
  rw [reconcile, computeReconcile]
  split
  · next hnil =>
    exact Or.inr ⟨rfl, not_mem_matched _ (by rw [hnil, List.filterMap_nil]), not_mem_matched _ (by rw [hnil, List.filterMap_nil])⟩
  · simp only
    cases hroles : List.filterMap Mapping.role? _ with
    | nil =>
      have hno : ∀ r, ¬ GivesRole lower groups mappings r := not_mem_matched _ hroles
      split_ifs with hempty
      · exact Or.inr ⟨rfl, hno, not_mem_matched _ hempty⟩
      · obtain ⟨s, hs⟩ := List.exists_mem_of_ne_nil _ hempty
        exact Or.inl ⟨.STAFF, rfl, Or.inr ⟨rfl, hno, s, (mem_matched_filterMap _ s).1 hs⟩⟩
    | cons first rest =>
      obtain ⟨hmem, hmax⟩ := best_spec first rest
      rw [← hroles] at hmem hmax
      exact Or.inl ⟨_, rfl, Or.inl ⟨(mem_matched_filterMap _ _).1 hmem, fun r' hr' => hmax r' ((mem_matched_filterMap _ r').2 hr')⟩⟩

theorem role_eq_some_iff (managed : Bool) (r : Role) :
    (reconcile lower groups mappings managed).role = some r ↔ Decided lower groups mappings r := by
  rcases @role_spec lower groups mappings managed with ⟨r', heq, hr'⟩ | ⟨heq, hroles, hsites⟩
  · rw [heq]
    exact ⟨fun h => Option.some.inj h ▸ hr', fun h => congrArg some (hr'.unique h)⟩
  · rw [heq]
    refine ⟨fun h => (nomatch h), fun h => ?_⟩
    rcases h with h | ⟨-, -, s, hs⟩
    · exact absurd h.given (hroles r)
    · exact absurd hs (hsites s)

theorem exists_highest {r : Role} (h : GivesRole lower groups mappings r) (managed : Bool) :
    ∃ r', (reconcile lower groups mappings managed).role = some r' ∧ HighestRole lower groups mappings r' := by
  rcases @role_spec lower groups mappings managed with ⟨r', heq, hr' | ⟨-, hno, -⟩⟩ | ⟨-, hno, -⟩
  · exact ⟨r', heq, hr'⟩
  · exact absurd h (hno r)
  · exact absurd h (hno r)

/-! Groups and mappings that change. -/

theorem applies_mono {groups groups' : List Text} (h : ∀ g ∈ groups, g ∈ groups') {m : Mapping}
    (hm : m.applies lower groups = true) : m.applies lower groups' = true := by
  simp only [Mapping.applies, Bool.and_eq_true] at hm ⊢
  refine ⟨hm.1, ?_⟩
  have hmap : ∀ (f : Text → Text) x, x ∈ groups.map f → x ∈ groups'.map f := by
    intro f x hx
    obtain ⟨g, hg, rfl⟩ := List.mem_map.1 hx
    exact List.mem_map_of_mem (h g hg)
  have happlies := hm.2
  split_ifs at happlies ⊢ <;> exact decide_eq_true (hmap _ _ (of_decide_eq_true happlies))

theorem applies_congr {groups groups' : List Text} (h : ∀ g, g ∈ groups ↔ g ∈ groups') (m : Mapping) :
    m.applies lower groups = m.applies lower groups' :=
  Bool.eq_iff_iff.2 ⟨applies_mono fun g => (h g).1, applies_mono fun g => (h g).2⟩

theorem gives_congr {β : Type} (f : Mapping → Option β) {groups groups' : List Text} {mappings mappings' : List MappingLite}
    (hgroups : ∀ g, g ∈ groups ↔ g ∈ groups') (hmappings : ∀ m, m ∈ mappings ↔ m ∈ mappings') (x : β) :
    (∃ m ∈ mappings, m.toMapping.applies lower groups = true ∧ f m.toMapping = some x) ↔
      ∃ m ∈ mappings', m.toMapping.applies lower groups' = true ∧ f m.toMapping = some x := by
  simp only [hmappings, applies_congr hgroups]

theorem decided_congr {groups groups' : List Text} {mappings mappings' : List MappingLite} (hgroups : ∀ g, g ∈ groups ↔ g ∈ groups')
    (hmappings : ∀ m, m ∈ mappings ↔ m ∈ mappings') (r : Role) :
    Decided lower groups mappings r ↔ Decided lower groups' mappings' r := by
  have hrole : ∀ r, GivesRole lower groups mappings r ↔ GivesRole lower groups' mappings' r := gives_congr _ hgroups hmappings
  have hsite : ∀ s, GivesSite lower groups mappings s ↔ GivesSite lower groups' mappings' s := gives_congr _ hgroups hmappings
  have hhighest : HighestRole lower groups mappings r ↔ HighestRole lower groups' mappings' r := by
    refine ⟨fun h => ⟨(hrole r).1 h.given, fun r' hr' => h.highest r' ((hrole r').2 hr')⟩,
      fun h => ⟨(hrole r).2 h.given, fun r' hr' => h.highest r' ((hrole r').1 hr')⟩⟩
  simp only [Decided, hhighest, hrole, hsite]

theorem GivesRole.mono {groups groups' : List Text} (h : ∀ g ∈ groups, g ∈ groups') {r : Role}
    (hr : GivesRole lower groups mappings r) : GivesRole lower groups' mappings r := by
  obtain ⟨m, hm, happlies, hrole⟩ := hr
  exact ⟨m, hm, applies_mono h happlies, hrole⟩

theorem GivesSite.mono {groups groups' : List Text} (h : ∀ g ∈ groups, g ∈ groups') {s : Text}
    (hs : GivesSite lower groups mappings s) : GivesSite lower groups' mappings s := by
  obtain ⟨m, hm, happlies, hsite⟩ := hs
  exact ⟨m, hm, applies_mono h happlies, hsite⟩

end Reconcile

/-- Over all groups and mappings: the decision is about the sets of both; its role is the highest that a mapping gives; and with more
groups no site goes, no role that a mapping gave gets lower, and who is kept stays. -/
theorem reconcile_laws (lower : Text → Text) (managed : Bool) :
    (∀ groups groups' mappings mappings', (∀ g, g ∈ groups ↔ g ∈ groups') → (∀ m, m ∈ mappings ↔ m ∈ mappings') →
      (reconcile lower groups mappings managed).deprovision = (reconcile lower groups' mappings' managed).deprovision ∧
      (reconcile lower groups mappings managed).role = (reconcile lower groups' mappings' managed).role ∧
      ∀ s, s ∈ (reconcile lower groups mappings managed).grantSiteIds ↔ s ∈ (reconcile lower groups' mappings' managed).grantSiteIds) ∧
    (∀ groups mappings r, (reconcile lower groups mappings managed).role = some r ↔ Decided lower groups mappings r) ∧
    ∀ groups groups' mappings, (∀ g ∈ groups, g ∈ groups') →
      (∀ s ∈ (reconcile lower groups mappings managed).grantSiteIds, s ∈ (reconcile lower groups' mappings managed).grantSiteIds) ∧
      (∀ r, HighestRole lower groups mappings r →
        ∃ r', (reconcile lower groups' mappings managed).role = some r' ∧ roleRank r ≤ roleRank r') ∧
      ((reconcile lower groups mappings managed).deprovision = false →
        (reconcile lower groups' mappings managed).deprovision = false) := by
  refine ⟨fun groups groups' mappings mappings' hgroups hmappings => ⟨?_, ?_, fun s => ?_⟩,
    fun groups mappings r => role_eq_some_iff managed r, fun groups groups' mappings h => ⟨fun s hs => ?_, fun r hr => ?_, fun hkept => ?_⟩⟩
  · rw [Bool.eq_iff_iff, deprovision_iff, deprovision_iff]
    simp only [hmappings, applies_congr hgroups]
  · ext r
    rw [role_eq_some_iff, role_eq_some_iff, decided_congr hgroups hmappings]
  · rw [mem_grantSiteIds, mem_grantSiteIds]
    exact gives_congr _ hgroups hmappings s
  · rw [mem_grantSiteIds] at hs ⊢
    exact hs.mono h
  · obtain ⟨r', hrole, hr'⟩ := exists_highest (hr.given.mono h) managed
    exact ⟨r', hrole, hr'.highest r (hr.given.mono h)⟩
  · rw [← Bool.not_eq_true, deprovision_iff] at hkept ⊢
    rintro ⟨hmanaged, hnone⟩
    refine hkept ⟨hmanaged, fun m hm => ?_⟩
    cases happlies : m.toMapping.applies lower groups with
    | false => rfl
    | true => exact (applies_mono h happlies).symm.trans (hnone m hm)

end Captivo.Directory
