import CaptivoAccess.Spec.GrantLife

/-! What a directory sync makes of a user's grants: on its own it leaves the user with active
managed grants on the decided sites and on no others, does not touch what the directory does
not manage, and finds nothing to do when it runs again. -/

namespace Captivo.Access

open Lib.Dns Lib.Threads

/-- The sites of the user's active grants that the directory manages. -/
def managedSites (userId : Text) (t : GrantTable) : List Text :=
  (t.rows.filter fun r => r.userId = userId && r.status = .ACTIVE && r.directoryManaged).map GrantRow.siteId

/-- The grants that the directory does not manage, whosever they are. -/
def unmanaged (t : GrantTable) : List GrantRow := t.rows.filter fun r => !r.directoryManaged

variable (userId : Text)

theorem managedSites_create (siteId : Text) (t : GrantTable) :
    managedSites userId (t.create (directoryGrant userId siteId)) = managedSites userId t ++ [siteId] := by
  simp [managedSites, GrantTable.create, NewGrant.row, directoryGrant, List.filter_append]

theorem unmanaged_create (siteId : Text) (t : GrantTable) :
    unmanaged (t.create (directoryGrant userId siteId)) = unmanaged t := by
  simp [unmanaged, GrantTable.create, NewGrant.row, directoryGrant, List.filter_append]

theorem alone_createAll (next : GrantThread) (siteIds : List Text) (t : GrantTable) :
    ∃ t', (createAll userId next siteIds).alone t = next.alone t' ∧
      managedSites userId t' = managedSites userId t ++ siteIds ∧ unmanaged t' = unmanaged t := by
  induction siteIds generalizing t with
  | nil => exact ⟨t, rfl, (List.append_nil _).symm, rfl⟩
  | cons siteId siteIds ih =>
    obtain ⟨t', hrun, hsites, hrest⟩ := ih (t.create (directoryGrant userId siteId))
    refine ⟨t', hrun, ?_, ?_⟩
    · rw [hsites, managedSites_create, List.append_assoc]
      rfl
    · rw [hrest, unmanaged_create]

theorem mem_managedSites_revoke (siteIds : List Text) (t : GrantTable) (siteId : Text) :
    siteId ∈ managedSites userId ((GrantStmt.directoryRevoke userId siteIds).apply t) ↔
      siteId ∈ managedSites userId t ∧ siteId ∉ siteIds := by
  simp only [managedSites, GrantStmt.apply, GrantTable.updateMany, List.mem_map, List.mem_filter, Bool.and_eq_true,
    decide_eq_true_eq]
  constructor
  · rintro ⟨r, ⟨⟨r', hr', rfl⟩, hactive⟩, rfl⟩
    split_ifs at hactive ⊢ with hsel
    · exact absurd hactive.1.2 (by simp)
    · refine ⟨⟨r', ⟨hr', hactive⟩, rfl⟩, fun hmem => hsel ⟨hactive, hmem⟩⟩
  · rintro ⟨⟨r, ⟨hr, hactive⟩, rfl⟩, hnot⟩
    have hsel : ¬ (((r.userId = userId ∧ r.status = .ACTIVE) ∧ r.directoryManaged = true) ∧ r.siteId ∈ siteIds) :=
      fun hsel => hnot hsel.2
    exact ⟨r, ⟨⟨r, hr, if_neg hsel⟩, hactive⟩, rfl⟩

/-- An update leaves the rows that it does not select, where it does not change what selects them. -/
theorem filter_update {p sel : GrantRow → Bool} {f : GrantRow → GrantRow} (hf : ∀ r, p (f r) = p r)
    (hsel : ∀ r, p r = true → sel r = false) (rows : List GrantRow) :
    (rows.map fun r => if sel r then f r else r).filter p = rows.filter p := by
  induction rows with
  | nil => rfl
  | cons r rows ih =>
    rw [List.map_cons, List.filter_cons, List.filter_cons, ih]
    cases hp : p r with
    | true => simp [hsel r hp, hp]
    | false =>
      have hrow : p (if sel r then f r else r) = false := by
        split_ifs
        · rw [hf, hp]
        · exact hp
      simp [hrow]

theorem unmanaged_revoke (siteIds : List Text) (t : GrantTable) :
    unmanaged ((GrantStmt.directoryRevoke userId siteIds).apply t) = unmanaged t := by
  simp only [unmanaged, GrantStmt.apply, GrantTable.updateMany]
  apply filter_update
  · exact fun _ => rfl
  · intro r hr
    rw [Bool.not_eq_true'] at hr
    simp [hr]

theorem alone_provisionUser (grantSiteIds : List Text) (t : GrantTable) :
    (∀ siteId, siteId ∈ managedSites userId ((provisionUser userId grantSiteIds).alone t) ↔ siteId ∈ grantSiteIds) ∧
      unmanaged ((provisionUser userId grantSiteIds).alone t) = unmanaged t := by
  have hplan : (provisionUser userId grantSiteIds).alone t =
      (createAll userId
        (if (planGrantChanges (managedSites userId t) grantSiteIds).2 = [] then .done
          else finish (.directoryRevoke userId (planGrantChanges (managedSites userId t) grantSiteIds).2))
        (planGrantChanges (managedSites userId t) grantSiteIds).1).alone t := rfl
  obtain ⟨t', hrun, hsites, hrest⟩ := alone_createAll userId
    (if (planGrantChanges (managedSites userId t) grantSiteIds).2 = [] then .done
      else finish (.directoryRevoke userId (planGrantChanges (managedSites userId t) grantSiteIds).2))
    (planGrantChanges (managedSites userId t) grantSiteIds).1 t
  rw [hplan, hrun]
  -- without anything to revoke the last statement is left out, and would change nothing
  have hrevoke : ∀ siteIds : List Text,
      (∀ siteId, siteId ∈ managedSites userId ((if siteIds = [] then .done else finish (.directoryRevoke userId siteIds)).alone t') ↔
        siteId ∈ managedSites userId t' ∧ siteId ∉ siteIds) ∧
      unmanaged ((if siteIds = [] then .done else finish (.directoryRevoke userId siteIds)).alone t') = unmanaged t' := by
    intro siteIds
    split_ifs with hnil
    · simp [hnil, Thread.alone]
    · exact ⟨mem_managedSites_revoke userId siteIds t', unmanaged_revoke userId siteIds t'⟩
  obtain ⟨hmem, hkept⟩ := hrevoke (planGrantChanges (managedSites userId t) grantSiteIds).2
  refine ⟨fun siteId => ?_, hkept.trans hrest⟩
  rw [hmem, hsites, List.mem_append]
  simp only [planGrantChanges, List.mem_filter, List.mem_eraseDups, decide_eq_true_eq]
  by_cases hcur : siteId ∈ managedSites userId t
  · by_cases hdes : siteId ∈ grantSiteIds <;> simp [hcur, hdes]
  · simp [hcur]

theorem alone_provisionUser_settled {grantSiteIds : List Text} {t : GrantTable}
    (h : ∀ siteId, siteId ∈ managedSites userId t ↔ siteId ∈ grantSiteIds) :
    (provisionUser userId grantSiteIds).alone t = t := by
  have hplan : planGrantChanges (managedSites userId t) grantSiteIds = ([], []) := by
    simp only [planGrantChanges, Prod.mk.injEq, List.filter_eq_nil_iff, List.mem_eraseDups, decide_eq_true_eq, not_not]
    exact ⟨fun siteId hs => (h siteId).2 hs, fun siteId hs => (h siteId).1 hs⟩
  change (createAll userId
    (if (planGrantChanges (managedSites userId t) grantSiteIds).2 = [] then .done
      else finish (.directoryRevoke userId (planGrantChanges (managedSites userId t) grantSiteIds).2))
    (planGrantChanges (managedSites userId t) grantSiteIds).1).alone t = t
  rw [hplan]
  rfl

/-- After a sync the user's active managed grants are on the decided sites, the grants that the directory does not manage
are as they were, and a second sync with the same decision changes nothing. -/
theorem provision_exact (t : GrantTable) (grantSiteIds : List Text) :
    (∀ siteId, (∃ r ∈ ((provisionUser userId grantSiteIds).alone t).rows,
        r.userId = userId ∧ r.status = .ACTIVE ∧ r.directoryManaged = true ∧ r.siteId = siteId) ↔ siteId ∈ grantSiteIds) ∧
      ((provisionUser userId grantSiteIds).alone t).rows.filter (fun r => !r.directoryManaged) =
        t.rows.filter (fun r => !r.directoryManaged) ∧
      (provisionUser userId grantSiteIds).alone ((provisionUser userId grantSiteIds).alone t) =
        (provisionUser userId grantSiteIds).alone t := by
  obtain ⟨hsites, hrest⟩ := alone_provisionUser userId grantSiteIds t
  refine ⟨fun siteId => ?_, hrest, alone_provisionUser_settled userId hsites⟩
  rw [← hsites siteId]
  simp only [managedSites, List.mem_map, List.mem_filter, Bool.and_eq_true, decide_eq_true_eq, and_assoc]

end Captivo.Access
