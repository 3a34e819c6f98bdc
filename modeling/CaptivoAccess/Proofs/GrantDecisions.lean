import CaptivoAccess.Spec.GrantLife

/-! Decisions on grants under any interleaving of the requests that make them. What was
revoked or denied stays so, and a grant that has to be approved admits nobody before it
was approved, nor after the approval was taken back. -/

namespace Captivo.Access

open Lib.Dns Lib.Threads

/-! What a statement does. -/

/-- What is common to the updates: they leave a grant the one it is, bring none back, and leave none approved that was not
or is not now. -/
structure Update (deed : Deed) (sel : GrantRow → Bool) (f : GrantRow → GrantRow) : Prop where
  id : ∀ r, (f r).id = r.id
  startsAt : ∀ r, (f r).startsAt = r.startsAt
  createdAt : ∀ r, (f r).createdAt = r.createdAt
  requiresApproval : ∀ r, (f r).requiresApproval = r.requiresApproval
  ended : ∀ r, r.status ≠ .ACTIVE → (f r).status ≠ .ACTIVE
  approved : ∀ r, sel r = true → (f r).status = .ACTIVE → (f r).approvedAt.isSome = true →
    deed = .approve ∨ deed = .edit ∧ r.status = .ACTIVE ∧ r.approvedAt.isSome = true

theorem update_approve (id : ℕ) (adminId : Text) (now : ℤ) :
    Update .approve (fun r => r.id = id && pendingWhere r)
      fun r => { r with approvedAt := some now, approvedById := some adminId } :=
  ⟨fun _ => rfl, fun _ => rfl, fun _ => rfl, fun _ => rfl, fun _ h => h, fun _ _ _ _ => Or.inl rfl⟩

theorem update_edit (id : ℕ) (endsAt : Option ℤ) (note : Option (Option Text)) :
    Update .edit (fun r => r.id = id && r.status = .ACTIVE)
      fun r => { r with endsAt := endsAt.or r.endsAt, note := note.getD r.note } :=
  ⟨fun _ => rfl, fun _ => rfl, fun _ => rfl, fun _ => rfl, fun _ h => h, fun _ _ hactive happroved =>
    Or.inr ⟨rfl, hactive, happroved⟩⟩

theorem update_deny (id : ℕ) (adminId : Text) (now : ℤ) (reason : Option Text) :
    Update .deny (fun r => r.id = id && pendingWhere r)
      fun r => { r with status := .DENIED, approvedAt := some now, approvedById := some adminId, denyReason := reason } :=
  ⟨fun _ => rfl, fun _ => rfl, fun _ => rfl, fun _ => rfl, fun _ _ => by simp, fun _ _ h => by simp at h⟩

theorem update_revoke (sel : GrantRow → Bool) : Update .revoke sel fun r => { r with status := .REVOKED } :=
  ⟨fun _ => rfl, fun _ => rfl, fun _ => rfl, fun _ => rfl, fun _ _ => by simp, fun _ _ h => by simp at h⟩

theorem apply_cases (s : GrantStmt) :
    s.apply = id ∨ (∃ g, s = .create g) ∨ (∃ ms, s = .wait ms) ∨ (∃ id userId, s = .withdraw id userId) ∨
      ∃ deed sel f, s.apply = GrantTable.updateMany deed sel f ∧ Update deed sel f := by
  cases s with
  | read => exact Or.inl rfl
  | readSettings instead => exact Or.inl rfl
  | create g => exact Or.inr (Or.inl ⟨g, rfl⟩)
  | wait ms => exact Or.inr (Or.inr (Or.inl ⟨ms, rfl⟩))
  | withdraw id userId => exact Or.inr (Or.inr (Or.inr (Or.inl ⟨id, userId, rfl⟩)))
  | approve id adminId now => exact Or.inr (Or.inr (Or.inr (Or.inr ⟨_, _, _, rfl, update_approve id adminId now⟩)))
  | deny id adminId now reason => exact Or.inr (Or.inr (Or.inr (Or.inr ⟨_, _, _, rfl, update_deny id adminId now reason⟩)))
  | revoke id => exact Or.inr (Or.inr (Or.inr (Or.inr ⟨_, _, _, rfl, update_revoke _⟩)))
  | edit id endsAt note => exact Or.inr (Or.inr (Or.inr (Or.inr ⟨_, _, _, rfl, update_edit id endsAt note⟩)))
  | directoryRevoke userId siteIds => exact Or.inr (Or.inr (Or.inr (Or.inr ⟨_, _, _, rfl, update_revoke _⟩)))
  | deprovision userId => exact Or.inr (Or.inr (Or.inr (Or.inr ⟨_, _, _, rfl, update_revoke _⟩)))

/-! Histories. -/

def Deed.takesBack : Deed → Bool
  | .deny | .revoke | .withdraw => true
  | .create | .edit | .approve => false

/-- The grant was approved, and the approval not taken back since. -/
def ApprovedSince (deeds : List (ℕ × Deed)) (id : ℕ) : Prop :=
  ∃ before after, deeds = before ++ (id, .approve) :: after ∧ ∀ deed, deed.takesBack = true → (id, deed) ∉ after

theorem ApprovedSince.append {deeds new : List (ℕ × Deed)} {id : ℕ} (h : ApprovedSince deeds id)
    (hnew : ∀ deed, deed.takesBack = true → (id, deed) ∉ new) : ApprovedSince (deeds ++ new) id := by
  obtain ⟨before, after, rfl, hafter⟩ := h
  refine ⟨before, after ++ new, by simp, fun deed hdeed hmem => ?_⟩
  rcases List.mem_append.1 hmem with hmem | hmem
  · exact hafter deed hdeed hmem
  · exact hnew deed hdeed hmem

section Deeds

variable {deed : Deed} {sel : GrantRow → Bool} {rows : List GrantRow} {r : GrantRow}

theorem mem_deedsOn {e : ℕ × Deed} : e ∈ deedsOn deed sel rows ↔ ∃ r ∈ rows, sel r = true ∧ e = (r.id, deed) := by
  simp only [deedsOn, List.mem_map, List.mem_filter, and_assoc, eq_comm]

theorem eq_of_mem_deedsOn {id : ℕ} {e : Deed} (h : (id, e) ∈ deedsOn deed sel rows) : e = deed := by
  obtain ⟨_, _, _, heq⟩ := mem_deedsOn.1 h
  exact congrArg Prod.snd heq

theorem eq_of_id (hnodup : (rows.map GrantRow.id).Nodup) {r' : GrantRow} (hr : r ∈ rows) (hr' : r' ∈ rows)
    (h : r.id = r'.id) : r = r' :=
  List.inj_on_of_nodup_map hnodup hr hr' h

theorem not_mem_deedsOn (hnodup : (rows.map GrantRow.id).Nodup) (hr : r ∈ rows) (hsel : sel r = false) (e : Deed) :
    (r.id, e) ∉ deedsOn deed sel rows := by
  intro hmem
  obtain ⟨r', hr', hsel', heq⟩ := mem_deedsOn.1 hmem
  rw [eq_of_id hnodup hr hr' (congrArg Prod.fst heq), hsel'] at hsel
  cases hsel

theorem approvedSince_deedsOn (deeds : List (ℕ × Deed)) (hr : r ∈ rows) (hsel : sel r = true) :
    ApprovedSince (deeds ++ deedsOn .approve sel rows) r.id := by
  have hmem : (r.id, Deed.approve) ∈ deedsOn .approve sel rows := mem_deedsOn.2 ⟨r, hr, hsel, rfl⟩
  obtain ⟨before, after, heq⟩ := List.append_of_mem hmem
  refine ⟨deeds ++ before, after, by rw [heq, List.append_assoc], fun deed hdeed hin => ?_⟩
  -- all that is new is an approval
  have hnew : (r.id, deed) ∈ deedsOn .approve sel rows := by
    rw [heq]
    exact List.mem_append_right _ (List.mem_cons_of_mem _ hin)
  rw [eq_of_mem_deedsOn hnew] at hdeed
  cases hdeed

end Deeds

/-! The table. -/

/-- An id is of one grant, and the next one is of none. -/
structure GrantTable.Ids (t : GrantTable) : Prop where
  below : ∀ r ∈ t.rows, r.id < t.nextId
  nodup : (t.rows.map GrantRow.id).Nodup

/-- What is approved has an approval to show. -/
structure GrantTable.Sound (t : GrantTable) : Prop where
  ids : t.Ids
  approved : ∀ r ∈ t.rows, r.requiresApproval = true → r.status = .ACTIVE → r.approvedAt.isSome = true →
    ApprovedSince t.deeds r.id

theorem sound_noGrants (now : ℤ) (days : Option ℤ) : (noGrants now days).Sound :=
  ⟨⟨by simp [noGrants], by simp [noGrants]⟩, by simp [noGrants]⟩

section Step

variable {t : GrantTable}

variable {f : GrantRow → GrantRow}

theorem mem_updateMany {deed : Deed} {sel : GrantRow → Bool} {r' : GrantRow} :
    r' ∈ (t.updateMany deed sel f).rows ↔ ∃ r ∈ t.rows, (if sel r then f r else r) = r' := by
  simp only [GrantTable.updateMany, List.mem_map]

theorem Update.id_ite {deed : Deed} {sel : GrantRow → Bool} (hu : Update deed sel f)
    (r : GrantRow) : (if sel r then f r else r).id = r.id := by
  split_ifs
  · exact hu.id r
  · rfl

theorem ids_updateMany {deed : Deed} {sel : GrantRow → Bool} (h : t.Ids)
    (hu : Update deed sel f) : (t.updateMany deed sel f).Ids := by
  refine ⟨fun r' hr' => ?_, ?_⟩
  · obtain ⟨r, hr, rfl⟩ := mem_updateMany.1 hr'
    rw [hu.id_ite]
    exact h.below r hr
  · have hids : (t.updateMany deed sel f).rows.map GrantRow.id = t.rows.map GrantRow.id := by
      simp only [GrantTable.updateMany, List.map_map]
      exact List.map_congr_left fun r _ => hu.id_ite r
    rw [hids]
    exact h.nodup

theorem deleteMany_sublist (sel : GrantRow → Bool) : (t.deleteMany sel).rows.Sublist t.rows := List.filter_sublist

theorem ids_deleteMany {sel : GrantRow → Bool} (h : t.Ids) : (t.deleteMany sel).Ids :=
  ⟨fun r hr => h.below r ((deleteMany_sublist sel).subset hr), h.nodup.sublist ((deleteMany_sublist sel).map _)⟩

theorem ids_create {g : NewGrant} (h : t.Ids) : (t.create g).Ids := by
  refine ⟨fun r hr => ?_, ?_⟩
  · rcases List.mem_append.1 hr with hr | hr
    · exact Nat.lt_succ_of_lt (h.below r hr)
    · rw [List.mem_singleton.1 hr]
      exact Nat.lt_succ_self _
  · simp only [GrantTable.create, List.map_append, List.nodup_append]
    refine ⟨h.nodup, List.nodup_singleton _, fun i hi j hj heq => ?_⟩
    obtain ⟨r, hr, rfl⟩ := List.mem_map.1 hi
    rw [List.map_singleton, List.mem_singleton] at hj
    exact absurd (heq.trans hj) (h.below r hr).ne

theorem ids_apply (s : GrantStmt) (h : t.Ids) : (s.apply t).Ids := by
  rcases apply_cases s with hs | ⟨g, rfl⟩ | ⟨ms, rfl⟩ | ⟨id, userId, rfl⟩ | ⟨deed, sel, f, hs, hu⟩
  · rw [hs]
    exact h
  · exact ids_create h
  · exact ⟨h.below, h.nodup⟩
  · exact ids_deleteMany h
  · rw [hs]
    exact ids_updateMany h hu

theorem approved_updateMany {deed : Deed} {sel : GrantRow → Bool} (h : t.Sound)
    (hu : Update deed sel f) {r : GrantRow} (hr : r ∈ t.rows) (hrequires : r.requiresApproval = true)
    (hactive : (if sel r then f r else r).status = .ACTIVE)
    (happroved : (if sel r then f r else r).approvedAt.isSome = true) :
    ApprovedSince (t.updateMany deed sel f).deeds r.id := by
  by_cases hsel : sel r = true
  · rw [if_pos hsel] at hactive happroved
    rcases hu.approved r hsel hactive happroved with rfl | ⟨rfl, hactive', happroved'⟩
    · exact approvedSince_deedsOn t.deeds hr hsel
    · refine (h.approved r hr hrequires hactive' happroved').append fun deed hdeed hmem => ?_
      rw [eq_of_mem_deedsOn hmem] at hdeed
      cases hdeed
  · rw [if_neg hsel] at hactive happroved
    rw [Bool.not_eq_true] at hsel
    exact (h.approved r hr hrequires hactive happroved).append fun deed _ => not_mem_deedsOn h.ids.nodup hr hsel deed

theorem approved_deleteMany {sel : GrantRow → Bool} (h : t.Sound) {r : GrantRow} (hr : r ∈ (t.deleteMany sel).rows)
    (hrequires : r.requiresApproval = true) (hactive : r.status = .ACTIVE) (happroved : r.approvedAt.isSome = true) :
    ApprovedSince (t.deleteMany sel).deeds r.id := by
  have hmem := (deleteMany_sublist sel).subset hr
  have hsel : sel r = false := by simpa using (List.mem_filter.1 hr).2
  exact (h.approved r hmem hrequires hactive happroved).append fun deed _ => not_mem_deedsOn h.ids.nodup hmem hsel deed

theorem approved_create {g : NewGrant} (h : t.Sound) {r : GrantRow} (hr : r ∈ (t.create g).rows)
    (hrequires : r.requiresApproval = true) (hactive : r.status = .ACTIVE) (happroved : r.approvedAt.isSome = true) :
    ApprovedSince (t.create g).deeds r.id := by
  rcases List.mem_append.1 hr with hr | hr
  · refine (h.approved r hr hrequires hactive happroved).append fun deed hdeed hmem => ?_
    obtain rfl : deed = .create := congrArg Prod.snd (List.mem_singleton.1 hmem)
    cases hdeed
  · rw [List.mem_singleton.1 hr] at happroved
    cases happroved

theorem sound_apply (s : GrantStmt) (h : t.Sound) : (s.apply t).Sound := by
  refine ⟨ids_apply s h.ids, fun r hr hrequires hactive happroved => ?_⟩
  rcases apply_cases s with hs | ⟨g, rfl⟩ | ⟨ms, rfl⟩ | ⟨id, userId, rfl⟩ | ⟨deed, sel, f, hs, hu⟩
  · rw [hs] at hr ⊢
    exact h.approved r hr hrequires hactive happroved
  · exact approved_create h hr hrequires hactive happroved
  · exact h.approved r hr hrequires hactive happroved
  · exact approved_deleteMany h hr hrequires hactive happroved
  · rw [hs] at hr ⊢
    obtain ⟨r, hmem, rfl⟩ := mem_updateMany.1 hr
    rw [hu.id_ite]
    refine approved_updateMany h hu hmem ?_ hactive happroved
    split_ifs at hrequires
    · rwa [hu.requiresApproval] at hrequires
    · exact hrequires

/-- The grant is revoked or denied. -/
def Ended (id : ℕ) (t : GrantTable) : Prop := ∃ r ∈ t.rows, r.id = id ∧ r.status ≠ .ACTIVE

theorem ended_apply (s : GrantStmt) {id : ℕ} (h : Ended id t) : Ended id (s.apply t) := by
  obtain ⟨r, hr, hid, hended⟩ := h
  rcases apply_cases s with hs | ⟨g, rfl⟩ | ⟨ms, rfl⟩ | ⟨id', userId, rfl⟩ | ⟨deed, sel, f, hs, hu⟩
  · rw [hs]
    exact ⟨r, hr, hid, hended⟩
  · exact ⟨r, List.mem_append_left _ hr, hid, hended⟩
  · exact ⟨r, hr, hid, hended⟩
  · -- only what is pending is deleted
    refine ⟨r, List.mem_filter.2 ⟨hr, ?_⟩, hid, hended⟩
    simp [pendingWhere, hended]
  · rw [hs]
    refine ⟨_, mem_updateMany.2 ⟨r, hr, rfl⟩, ?_⟩
    split_ifs
    · exact ⟨(hu.id r).trans hid, hu.ended r hended⟩
    · exact ⟨hid, hended⟩

end Step

/-! Requests. -/

section Threads

/-- The statement does not make a request that is to be approved. -/
def GrantStmt.Quiet (s : GrantStmt) : Prop := ∀ g, s = .create g → g.requiresApproval = false

def GrantStmt.isCreate : GrantStmt → Bool
  | .create _ => true
  | _ => false

theorem quiet_of_not_create {s : GrantStmt} (h : s.isCreate = false) : s.Quiet := by
  rintro g rfl
  cases h

/-- What the end of a thread has, and with what comes after it every statement that meets `Q`. -/
structure Closed (Q : GrantStmt → Prop) (C : GrantThread → Prop) : Prop where
  done : C .done
  exec : ∀ s next, Q s → (∀ t, C (next t)) → C (exec s next)

namespace Closed

variable {C : GrantThread → Prop} (h : Closed GrantStmt.Quiet C)

include h

theorem finish {s : GrantStmt} (hs : s.Quiet) : C (Access.finish s) := h.exec s _ hs fun _ => h.done

theorem read {next : GrantTable → GrantThread} (hnext : ∀ t, C (next t)) : C (Access.exec .read next) := h.exec _ _ (quiet_of_not_create rfl) hnext

theorem checkCap (startsAt endsAt : Option ℤ) (instead : Option (Option ℤ)) {next : GrantThread} (hnext : C next) :
    C (Access.checkCap startsAt endsAt instead next) := by
  refine h.read fun t => h.exec _ _ (quiet_of_not_create rfl) fun t' => ?_
  split
  · exact h.done
  · exact hnext

theorem writeEdit (id : ℕ) (endsAt : Option ℤ) (note : Option (Option Text)) : C (Access.writeEdit id endsAt note) := by
  unfold Access.writeEdit
  split
  · exact h.finish (quiet_of_not_create rfl)
  · exact h.done
  · dsimp only
    split
    · exact h.done
    · exact h.finish (quiet_of_not_create rfl)

theorem editGrant (id : ℕ) (endsAt : Option (Option ℤ)) (note : Option (Option Text)) (instead : Option (Option ℤ)) :
    C (Access.editGrant id endsAt note instead) := by
  unfold Access.editGrant
  split_ifs
  · exact h.done
  · refine h.read fun t => ?_
    split
    · exact h.done
    · split_ifs
      · exact h.done
      · split
        · exact h.writeEdit id none note
        · refine h.read fun t' => ?_
          split
          · exact h.done
          · exact h.checkCap _ _ _ (h.writeEdit id _ note)

theorem requestAccess (intl : Intl) {body : GrantBody} (hbody : C (createAccessRequest body)) (instead : Option (Option ℤ)) :
    C (Access.requestAccess intl body instead) := by
  unfold Access.requestAccess
  split_ifs
  · exact h.done
  · refine h.checkCap _ _ _ (h.read fun t => ?_)
    split_ifs
    · exact h.done
    · exact hbody
  · exact h.checkCap _ _ _ h.done

theorem withdraw (id : ℕ) (userId : Text) : C (Access.withdraw id userId) := by
  refine h.read fun t => ?_
  split
  · exact h.done
  · split_ifs
    · exact h.done
    · exact h.finish (quiet_of_not_create rfl)
    · exact h.done

theorem createAll (userId : Text) {next : GrantThread} (hnext : C next) (siteIds : List Text) :
    C (Access.createAll userId next siteIds) := by
  induction siteIds with
  | nil => exact hnext
  | cons siteId siteIds ih =>
    refine h.exec _ _ (fun g hg => ?_) fun _ => ih
    cases hg
    rfl

theorem provisionUser (userId : Text) (grantSiteIds : List Text) : C (Access.provisionUser userId grantSiteIds) := by
  refine h.read fun t => h.createAll userId ?_ _
  split_ifs
  · exact h.done
  · exact h.finish (quiet_of_not_create rfl)

theorem thread (hcreate : ∀ body, C (createAccessRequest body)) (intl : Intl) (request : GrantRequest) : C (request.thread intl) := by
  cases request with
  | adminCreate body adminId instead =>
    refine h.checkCap _ _ _ ?_
    split_ifs
    · refine h.finish fun g hg => ?_
      cases hg
      rfl
    · exact h.done
  | requestAccess body instead => exact h.requestAccess intl (hcreate body) instead
  | decide id approve adminId reason =>
    refine h.read fun t => h.finish ?_
    split_ifs <;> exact quiet_of_not_create rfl
  | revoke id => exact h.finish (quiet_of_not_create rfl)
  | edit id endsAt note instead => exact h.editGrant id endsAt note instead
  | withdraw id userId => exact h.withdraw id userId
  | provision userId grantSiteIds => exact h.provisionUser userId grantSiteIds
  | deprovision userId => exact h.finish (quiet_of_not_create rfl)
  | wait ms => exact h.finish (quiet_of_not_create rfl)

end Closed

/-- A request makes nothing but its statements. -/
def Plain (thread : GrantThread) : Prop := thread.All fun s f => f = s.apply

theorem plain_exec (s : GrantStmt) {next : GrantTable → GrantThread} (h : ∀ t, Plain (next t)) : Plain (exec s next) := ⟨rfl, h⟩

theorem plain_thread (intl : Intl) (request : GrantRequest) : Plain (request.thread intl) := by
  have hclosed : Closed GrantStmt.Quiet Plain := ⟨trivial, fun s _ _ h => plain_exec s h⟩
  refine hclosed.thread (fun body => plain_exec _ fun t => ?_) intl request
  split_ifs
  · exact trivial
  · exact plain_exec _ fun _ => trivial

theorem run_keeps {Inv : GrantTable → Prop} (hstep : ∀ s t, Inv t → Inv (GrantStmt.apply s t)) {p : Pool GrantTable GrantStmt}
    (hall : ∀ i, Plain (p.threads i)) (h : Inv p.db) (schedule : List ℕ) : Inv (p.run schedule).db := by
  have hP : ∀ (s : GrantStmt) (f : GrantTable → GrantTable), f = s.apply → ∀ t, True → Inv t → Inv (f t) := by
    rintro s f rfl t - ht
    exact hstep s t ht
  exact run_invariant hP hall h (Lib.Run.meets_of_always (fun _ _ _ _ => trivial) p schedule)

end Threads

theorem approved_of_allow {intl : Intl} {g : Grant} {now : ℤ} (h : classifyGrant intl g now = .allow)
    (hrequires : g.requiresApproval = true) : g.status = .ACTIVE ∧ g.approvedAt.isSome = true := by
  unfold classifyGrant at h
  split_ifs at h with hrevoked hdenied _ _ hpending
  constructor
  · cases hs : g.status with
    | ACTIVE => rfl
    | REVOKED => exact absurd hs hrevoked
    | DENIED => exact absurd hs hdenied
  · simpa [hrequires, Option.isSome_iff_ne_none] using hpending

/-- In every interleaving of requests, from the first grant on: what was revoked or denied at some point is not active at any
later one, and a grant that has to be approved and admits at some instant was approved before, and neither denied nor revoked
nor withdrawn since. -/
theorem grant_decisions_hold (intl : Intl) (now : ℤ) (days : Option ℤ) (requests : ℕ → GrantRequest) (schedule later : List ℕ) :
    (∀ r ∈ ((grantPool intl (noGrants now days) requests).run schedule).db.rows, r.status ≠ .ACTIVE →
      ∀ r' ∈ ((grantPool intl (noGrants now days) requests).run (schedule ++ later)).db.rows, r'.id = r.id → r'.status ≠ .ACTIVE) ∧
    ∀ r ∈ ((grantPool intl (noGrants now days) requests).run schedule).db.rows, r.requiresApproval = true →
      ∀ instant, classifyGrant intl r.toGrant instant = .allow →
        ApprovedSince ((grantPool intl (noGrants now days) requests).run schedule).db.deeds r.id := by
  have hplain : ∀ i, Plain ((grantPool intl (noGrants now days) requests).threads i) := fun i => plain_thread intl (requests i)
  have hsound : ∀ schedule, ((grantPool intl (noGrants now days) requests).run schedule).db.Sound :=
    run_keeps (fun s _ => sound_apply s) hplain (sound_noGrants now days)
  refine ⟨fun r hr hended r' hr' hid => ?_, fun r hr hrequires instant hallow => ?_⟩
  · have hended' : Ended r.id ((grantPool intl (noGrants now days) requests).run (schedule ++ later)).db := by
      rw [Pool.run, List.foldl_append]
      exact run_keeps (fun s _ => ended_apply s) (all_run hplain schedule) ⟨r, hr, rfl, hended⟩ later
    obtain ⟨r'', hr'', hid'', hended''⟩ := hended'
    rwa [eq_of_id (hsound _).ids.nodup hr' hr'' (hid.trans hid''.symm)]
  · obtain ⟨hactive, happroved⟩ := approved_of_allow hallow hrequires
    exact (hsound schedule).approved r hr hrequires hactive happroved

end Captivo.Access
