import CaptivoAccess.Proofs.GrantDecisions

/-! The longest time a grant may last. Each path measures it by itself: a grant that is
created from the console or asked for keeps to it, an edit measures from the moment of the
edit where the grant has no start, an approval does not measure, and a directory sync
creates grants without an end. -/

namespace Captivo.Access

open Lib.Dns Lib.Threads

def capMs (n : ℤ) : ℤ := n * 24 * 60 * 60 * 1000

/-- The grant ends, at most `n` days after its start. -/
def withinCap (n : ℤ) (r : GrantRow) : Bool := r.endsAt.any fun e => e - r.startsAt.getD r.createdAt ≤ capMs n

def Deed.touches : Deed → Bool
  | .create | .edit | .approve => true
  | .deny | .revoke | .withdraw => false

/-- The grant was created, edited or approved. -/
def GrantTable.touched (t : GrantTable) (id : ℕ) : Bool := t.deeds.any fun e => e.1 = id && e.2.touches

def Capped (n : ℤ) (t : GrantTable) : Prop := ∀ r ∈ t.rows, t.touched r.id = true → withinCap n r = true

/-- The settings are answered as they are, no grant is created from the directory, the end given to a grant without a start
is measured from its creation, and what is approved or gets a new note is within the cap. -/
def CapKept (n : ℤ) : GrantStmt → GrantTable → Prop
  | .readSettings instead, _ => ∀ stored ∈ instead, stored = some n
  | .create g, _ => g.directoryManaged = false
  | .edit id (some e) _, t => ∀ r ∈ t.rows, r.id = id → r.status = .ACTIVE → r.startsAt = none → e - r.createdAt ≤ capMs n
  | .edit id none _, t => ∀ r ∈ t.rows, r.id = id → r.status = .ACTIVE → withinCap n r = true
  | .approve id _ _, t => ∀ r ∈ t.rows, r.id = id → pendingWhere r = true → withinCap n r = true
  | _, _ => True

/-! The table. -/

/-- How others change the table: no grant changes its start, and no id comes back. -/
structure GrantTable.Later (t t' : GrantTable) : Prop where
  now : t.now ≤ t'.now
  nextId : t.nextId ≤ t'.nextId
  startsAt : ∀ r' ∈ t'.rows, r'.id < t.nextId → ∃ r ∈ t.rows, r.id = r'.id ∧ r.startsAt = r'.startsAt

theorem GrantTable.Later.refl (t : GrantTable) : t.Later t := ⟨le_rfl, le_rfl, fun r hr _ => ⟨r, hr, rfl, rfl⟩⟩

theorem GrantTable.Later.trans {a b c : GrantTable} (hab : a.Later b) (hbc : b.Later c) : a.Later c := by
  refine ⟨hab.now.trans hbc.now, hab.nextId.trans hbc.nextId, fun r'' hr'' hlt => ?_⟩
  obtain ⟨r', hr', hid', hstarts'⟩ := hbc.startsAt r'' hr'' (hlt.trans_le hab.nextId)
  obtain ⟨r, hr, hid, hstarts⟩ := hab.startsAt r' hr' (hid' ▸ hlt)
  exact ⟨r, hr, hid.trans hid', hstarts.trans hstarts'⟩

section Step

variable {t : GrantTable} {n : ℤ}

theorem later_apply (s : GrantStmt) (t : GrantTable) : t.Later (s.apply t) := by
  rcases apply_cases s with hs | ⟨g, rfl⟩ | ⟨ms, rfl⟩ | ⟨id, userId, rfl⟩ | ⟨deed, sel, f, hs, hu⟩
  · rw [hs]
    exact .refl t
  · refine ⟨le_rfl, Nat.le_succ _, fun r' hr' hlt => ?_⟩
    rcases List.mem_append.1 hr' with hr' | hr'
    · exact ⟨r', hr', rfl, rfl⟩
    · rw [List.mem_singleton.1 hr'] at hlt
      exact absurd hlt (Nat.lt_irrefl _)
  · exact ⟨Int.le_add_of_nonneg_right (Int.natCast_nonneg ms), le_rfl, fun r hr _ => ⟨r, hr, rfl, rfl⟩⟩
  · exact ⟨le_rfl, le_rfl, fun r hr _ => ⟨r, (deleteMany_sublist _).subset hr, rfl, rfl⟩⟩
  · rw [hs]
    refine ⟨le_rfl, le_rfl, fun r' hr' _ => ?_⟩
    obtain ⟨r, hr, rfl⟩ := mem_updateMany.1 hr'
    refine ⟨r, hr, (hu.id_ite r).symm, ?_⟩
    split_ifs
    · exact (hu.startsAt r).symm
    · rfl

theorem touched_append {new : List (ℕ × Deed)} {id : ℕ} :
    (({ t with deeds := t.deeds ++ new } : GrantTable).touched id = true) ↔
      t.touched id = true ∨ ∃ deed, deed.touches = true ∧ (id, deed) ∈ new := by
  simp only [GrantTable.touched, List.any_append, Bool.or_eq_true, List.any_eq_true, Bool.and_eq_true, decide_eq_true_eq]
  refine or_congr_right ⟨?_, ?_⟩
  · rintro ⟨⟨id', deed⟩, hmem, rfl, hdeed⟩
    exact ⟨deed, hdeed, hmem⟩
  · rintro ⟨deed, hdeed, hmem⟩
    exact ⟨(id, deed), hmem, rfl, hdeed⟩

/-- An update keeps the cap where it leaves within it what it touches, and the end of what it does not. -/
theorem capped_updateMany {deed : Deed} {sel : GrantRow → Bool} {f : GrantRow → GrantRow} (hids : t.Ids)
    (hu : Update deed sel f) (h : Capped n t)
    (hf : ∀ r ∈ t.rows, sel r = true → if deed.touches then withinCap n (f r) = true else (f r).endsAt = r.endsAt) :
    Capped n (t.updateMany deed sel f) := by
  intro r' hr' htouched
  obtain ⟨r, hr, rfl⟩ := mem_updateMany.1 hr'
  rw [hu.id_ite] at htouched
  rcases touched_append.1 htouched with hold | ⟨e, he, hmem⟩
  · have hcap := h r hr hold
    by_cases hsel : sel r = true
    · rw [if_pos hsel]
      have hfr := hf r hr hsel
      split_ifs at hfr
      · exact hfr
      · rw [withinCap, hfr, hu.startsAt, hu.createdAt]
        exact hcap
    · rwa [if_neg hsel]
  · have hsel : sel r = true := by
      by_contra hsel
      rw [Bool.not_eq_true] at hsel
      exact not_mem_deedsOn hids.nodup hr hsel e hmem
    have hfr := hf r hr hsel
    rw [← eq_of_mem_deedsOn hmem, he, if_pos rfl] at hfr
    rwa [if_pos hsel]

theorem capped_create {g : NewGrant} (h : Capped n t) (hids : t.Ids) (hg : withinCap n (g.row t.nextId t.now) = true) :
    Capped n (t.create g) := by
  intro r hr htouched
  rcases List.mem_append.1 hr with hr | hr
  · rcases touched_append.1 htouched with hold | ⟨e, -, hmem⟩
    · exact h r hr hold
    · -- the id of the new grant is above those of the others
      have hid : r.id = t.nextId := congrArg Prod.fst (List.mem_singleton.1 hmem)
      exact absurd hid (hids.below r hr).ne
  · rwa [List.mem_singleton.1 hr]

theorem capped_deleteMany {sel : GrantRow → Bool} (hids : t.Ids) (h : Capped n t) : Capped n (t.deleteMany sel) := by
  intro r hr htouched
  have hmem := (deleteMany_sublist sel).subset hr
  have hsel : sel r = false := by simpa using (List.mem_filter.1 hr).2
  rcases touched_append.1 htouched with hold | ⟨e, -, hmem'⟩
  · exact h r hmem hold
  · exact absurd hmem' (not_mem_deedsOn hids.nodup hmem hsel e)

/-- What a request has checked of the statement it makes. -/
def Checked (n : ℤ) : GrantStmt → GrantTable → Prop
  | .create g, t => g.directoryManaged = true ∨ withinCap n (g.row t.nextId t.now) = true
  | .edit id (some e) _, t => ∀ r ∈ t.rows, r.id = id → ∀ start, r.startsAt = some start → e - start ≤ capMs n
  | _, _ => True

theorem capped_edit (hids : t.Ids) (h : Capped n t) {id : ℕ} {endsAt : Option ℤ} {note : Option (Option Text)}
    (hchecked : Checked n (.edit id endsAt note) t) (hkept : CapKept n (.edit id endsAt note) t) :
    Capped n (GrantStmt.apply (.edit id endsAt note) t) := by
  refine capped_updateMany hids (update_edit id endsAt note) h fun r hr hsel => ?_
  simp only [Bool.and_eq_true, decide_eq_true_eq] at hsel
  obtain ⟨hid, hactive⟩ := hsel
  simp only [Deed.touches, if_true]
  cases endsAt with
  | none => exact hkept r hr hid hactive
  | some e =>
    simp only [withinCap, Option.some_or, Option.any_some, decide_eq_true_eq]
    cases hstart : r.startsAt with
    | none => exact hkept r hr hid hactive hstart
    | some start => exact hchecked r hr hid start hstart

theorem capped_apply (s : GrantStmt) (hids : t.Ids) (h : Capped n t) (hchecked : Checked n s t) (hkept : CapKept n s t) :
    Capped n (s.apply t) := by
  cases s with
  | read => exact h
  | readSettings instead => exact h
  | wait ms => exact h
  | withdraw id userId => exact capped_deleteMany hids h
  | create g =>
    refine capped_create h hids (hchecked.resolve_left ?_)
    rw [show g.directoryManaged = false from hkept]
    exact Bool.false_ne_true
  | edit id endsAt note => exact capped_edit hids h hchecked hkept
  | approve id adminId now =>
    refine capped_updateMany hids (update_approve id adminId now) h fun r hr hsel => ?_
    rw [Bool.and_eq_true, decide_eq_true_eq] at hsel
    exact hkept r hr hsel.1 hsel.2
  | deny id adminId now reason => exact capped_updateMany hids (update_deny id adminId now reason) h fun _ _ _ => rfl
  | revoke id => exact capped_updateMany hids (update_revoke _) h fun _ _ _ => rfl
  | directoryRevoke userId siteIds => exact capped_updateMany hids (update_revoke _) h fun _ _ _ => rfl
  | deprovision userId => exact capped_updateMany hids (update_revoke _) h fun _ _ _ => rfl

theorem days_apply (s : GrantStmt) (t : GrantTable) : (s.apply t).maxGrantDays = t.maxGrantDays := by
  cases s <;> rfl

end Step

/-! Requests. -/

/-- The tenant's maximum is `n` days, and what was touched keeps to it. -/
structure InForce (n : ℤ) (t : GrantTable) : Prop where
  ids : t.Ids
  days : t.maxGrantDays = some n
  capped : Capped n t

/-- Going on from the table, a request has checked what it writes. -/
def Careful (n : ℤ) (t : GrantTable) (thread : GrantThread) : Prop :=
  thread.Relies GrantTable.Later (InForce n) (CapKept n) (fun s f _ t => f = s.apply ∧ Checked n s t) t

section Requests

variable {n : ℤ} {t : GrantTable}

theorem careful_exec {s : GrantStmt} {next : GrantTable → GrantThread}
    (hchecked : ∀ t', t.Later t' → InForce n t' → Checked n s t')
    (hnext : ∀ t', t.Later t' → InForce n t' → CapKept n s t' → Careful n (s.apply t') (next t')) :
    Careful n t (exec s next) :=
  fun t' hlater hforce => ⟨⟨rfl, hchecked t' hlater hforce⟩, hnext t' hlater hforce⟩

theorem careful_finish {s : GrantStmt} (hchecked : ∀ t', t.Later t' → InForce n t' → Checked n s t') :
    Careful n t (finish s) :=
  careful_exec hchecked fun _ _ _ _ => trivial

theorem careful_read {next : GrantTable → GrantThread} (hnext : ∀ t', t.Later t' → InForce n t' → Careful n t' (next t')) :
    Careful n t (exec .read next) :=
  careful_exec (fun _ _ _ => trivial) fun t' hlater hforce _ => hnext t' hlater hforce

/-- The end keeps to the cap, measured from the start or from that time. -/
def Measured (n : ℤ) (startsAt endsAt : Option ℤ) (now : ℤ) : Prop := ∃ e, endsAt = some e ∧ e - startsAt.getD now ≤ capMs n

variable {startsAt endsAt : Option ℤ}

theorem Measured.later {now now' : ℤ} (h : Measured n startsAt endsAt now) (hle : now ≤ now') :
    Measured n startsAt endsAt now' := by
  obtain ⟨e, he, hcap⟩ := h
  refine ⟨e, he, ?_⟩
  cases startsAt with
  | none =>
    simp only [Option.getD_none] at hcap ⊢
    omega
  | some start => exact hcap

theorem measured_of_grantCapError (hn : 0 < n) {now : ℤ}
    (h : grantCapError startsAt endsAt now n = none) : Measured n startsAt endsAt now := by
  cases endsAt with
  | none => simp [grantCapError, not_le.2 hn] at h
  | some e =>
    refine ⟨e, rfl, ?_⟩
    by_contra hgt
    rw [not_le, capMs] at hgt
    simp only [grantCapError, if_neg (not_le.2 hn), if_pos hgt] at h
    cases h

theorem careful_checkCap (hn : 0 < n) {instead : Option (Option ℤ)} {next : GrantThread}
    (hnext : ∀ t', t.Later t' → InForce n t' → Measured n startsAt endsAt t'.now → Careful n t' next) :
    Careful n t (checkCap startsAt endsAt instead next) := by
  refine careful_read fun t' hlater _ => careful_exec (fun _ _ _ => trivial) fun t'' hlater' hforce' hanswer => ?_
  have hdays : resolvedMaxGrantDays (instead.getD t''.maxGrantDays) = n := by
    have hstored : instead.getD t''.maxGrantDays = some n := by
      cases instead with
      | none => exact hforce'.days
      | some stored => exact hanswer stored rfl
    simp [resolvedMaxGrantDays, hstored, Option.filter, hn]
  rw [hdays]
  split
  · exact trivial
  · next hnone => exact hnext t'' (hlater.trans hlater') hforce' ((measured_of_grantCapError hn hnone).later hlater'.now)

theorem withinCap_row {g : NewGrant} {id : ℕ} {now : ℤ} (h : Measured n g.startsAt g.endsAt now) :
    withinCap n (g.row id now) = true := by
  obtain ⟨e, he, hcap⟩ := h
  simp only [withinCap, NewGrant.row, he, Option.any_some, decide_eq_true hcap]

theorem careful_create {g : NewGrant} (h : Measured n g.startsAt g.endsAt t.now) : Careful n t (finish (.create g)) :=
  careful_finish fun _ hlater _ => Or.inr (withinCap_row (h.later hlater.now))

theorem careful_adminCreate (hn : 0 < n) (body : GrantBody) (adminId : Text) (instead : Option (Option ℤ)) :
    Careful n t (adminCreate body adminId instead) := by
  refine careful_checkCap hn fun t' _ _ hmeasured => ?_
  split_ifs
  · exact careful_create hmeasured
  · exact trivial

theorem careful_requestAccess (hn : 0 < n) (intl : Intl) (body : GrantBody) (instead : Option (Option ℤ)) :
    Careful n t (requestAccess intl body instead) := by
  unfold requestAccess
  split_ifs
  · exact trivial
  · refine careful_checkCap hn fun t₁ _ _ hmeasured => careful_read fun t₂ hlater _ => ?_
    split_ifs
    · exact trivial
    · refine careful_read fun t₃ hlater' _ => ?_
      split_ifs
      · exact trivial
      · exact careful_create (hmeasured.later (hlater.now.trans hlater'.now))
  · exact careful_checkCap hn fun _ _ _ _ => trivial

theorem careful_writeEdit {id : ℕ} {endsAt : Option ℤ} (note : Option (Option Text))
    (h : ∀ note t', t.Later t' → InForce n t' → Checked n (.edit id endsAt note) t') : Careful n t (writeEdit id endsAt note) := by
  unfold writeEdit
  split
  · exact careful_finish (h _)
  · exact trivial
  · dsimp only
    split
    · exact trivial
    · exact careful_finish (h _)

theorem checked_edit {grant : GrantRow} (hids : t.Ids) (hgrant : grant ∈ t.rows) {t' : GrantTable} (hlater : t.Later t')
    {endsAt : Option ℤ} {now : ℤ} (hmeasured : Measured n grant.startsAt endsAt now) (note : Option (Option Text)) :
    Checked n (.edit grant.id endsAt note) t' := by
  obtain ⟨e, rfl, hcap⟩ := hmeasured
  intro r' hr' hid start hstart
  obtain ⟨r, hr, hrid, hrstart⟩ := hlater.startsAt r' hr' (hid ▸ hids.below grant hgrant)
  obtain rfl := eq_of_id hids.nodup hr hgrant (hrid.trans hid)
  rw [hrstart, hstart] at hcap
  exact hcap

theorem careful_editGrant (hn : 0 < n) (id : ℕ) (endsAt : Option (Option ℤ)) (note : Option (Option Text))
    (instead : Option (Option ℤ)) : Careful n t (editGrant id endsAt note instead) := by
  unfold editGrant
  split_ifs
  · exact trivial
  · refine careful_read fun t₁ _ hforce => ?_
    split
    · exact trivial
    · next grant hfind =>
      have hgrant : grant ∈ t₁.rows := List.mem_of_find?_eq_some hfind
      obtain rfl : grant.id = id := by simpa using List.find?_some hfind
      split_ifs
      · exact trivial
      · split
        · exact careful_writeEdit note fun _ _ _ _ => trivial
        · refine careful_read fun t₂ hlater _ => ?_
          split
          · exact trivial
          · refine careful_checkCap hn fun t₃ hlater' _ hmeasured => careful_writeEdit note fun note' t₄ hlater'' _ => ?_
            exact checked_edit hforce.ids hgrant ((hlater.trans hlater').trans hlater'') hmeasured note'

theorem careful_createAll (userId : Text) {next : GrantThread} (h : ∀ t', t.Later t' → Careful n t' next) (siteIds : List Text) :
    Careful n t (createAll userId next siteIds) := by
  induction siteIds generalizing t with
  | nil => exact h t (.refl t)
  | cons siteId siteIds ih =>
    refine careful_exec (fun _ _ _ => Or.inl rfl) fun t₁ hlater _ _ => ih fun t₂ hlater' => ?_
    exact h t₂ ((hlater.trans (later_apply _ t₁)).trans hlater')

theorem careful_thread (hn : 0 < n) (intl : Intl) (request : GrantRequest) : Careful n t (request.thread intl) := by
  cases request with
  | adminCreate body adminId instead => exact careful_adminCreate hn body adminId instead
  | requestAccess body instead => exact careful_requestAccess hn intl body instead
  | decide id approve adminId reason =>
    refine careful_read fun t' _ _ => careful_finish fun _ _ _ => ?_
    split_ifs <;> exact trivial
  | revoke id => exact careful_finish fun _ _ _ => trivial
  | edit id endsAt note instead => exact careful_editGrant hn id endsAt note instead
  | withdraw id userId =>
    refine careful_read fun t' _ _ => ?_
    split
    · exact trivial
    · split_ifs
      · exact trivial
      · exact careful_finish fun _ _ _ => trivial
      · exact trivial
  | provision userId grantSiteIds =>
    refine careful_read fun t₁ _ _ => careful_createAll userId (fun t₂ _ => ?_) _
    split_ifs
    · exact trivial
    · exact careful_finish fun _ _ _ => trivial
  | deprovision userId => exact careful_finish fun _ _ _ => trivial
  | wait ms => exact careful_finish fun _ _ _ => trivial

end Requests

/-- While the maximum is `n` days, every grant that is created, edited or approved has an end within it, in every interleaving
of requests whose statements meet the condition. -/
theorem grants_within_cap (intl : Intl) (n : ℤ) (hn : 0 < n) (t : GrantTable) (hdays : t.maxGrantDays = some n) (hids : t.Ids)
    (hfirst : t.deeds = []) (requests : ℕ → GrantRequest) (schedule : List ℕ)
    (h : Lib.Run.Meets Pool.step (Pool.Guarded (CapKept n)) (grantPool intl t requests) schedule) :
    Capped n ((grantPool intl t requests).run schedule).db := by
  have hstep : ∀ (s : GrantStmt) (f : GrantTable → GrantTable) (_ : GrantTable → GrantThread) (t : GrantTable),
      f = s.apply ∧ Checked n s t → CapKept n s t → InForce n t → InForce n (f t) ∧ t.Later (f t) := by
    rintro s f - t ⟨rfl, hchecked⟩ hkept hforce
    refine ⟨⟨ids_apply s hforce.ids, ?_, capped_apply s hforce.ids hforce.capped hchecked hkept⟩, later_apply s t⟩
    rw [days_apply, hforce.days]
  have hstart : InForce n t := by
    refine ⟨hids, hdays, fun r _ htouched => ?_⟩
    rw [GrantTable.touched, hfirst] at htouched
    cases htouched
  have hall : ∀ i, Careful n (grantPool intl t requests).db ((grantPool intl t requests).threads i) :=
    fun i => careful_thread hn intl (requests i)
  exact (run_rely GrantTable.Later.refl (fun _ _ _ => GrantTable.Later.trans) hstep hall hstart h).capped

instance (n : ℤ) (t : GrantTable) : Decidable (Capped n t) :=
  inferInstanceAs (Decidable (∀ r ∈ t.rows, t.touched r.id = true → withinCap n r = true))

/-- No weekday is known, which is not looked at without a schedule. -/
def noClock : Intl := ⟨fun _ => true, fun _ _ => (none, 0)⟩

/-- A day of access for one user, from now on. -/
def oneDay : GrantBody := ⟨"ada".toList, "crm".toList, none, some 86400000, none, none, true⟩

theorem grants_within_cap_oneDay :
    ((grantPool noClock (noGrants 0 (some 1)) fun _ => .adminCreate oneDay "admin".toList none).run [0, 0, 0]).db.deeds =
        [(0, .create)] ∧
      Capped 1 ((grantPool noClock (noGrants 0 (some 1)) fun _ => .adminCreate oneDay "admin".toList none).run [0, 0, 0]).db := by
  refine ⟨by decide +kernel, grants_within_cap noClock 1 (by decide) _ rfl (sound_noGrants 0 (some 1)).ids rfl _ _ ?_⟩
  refine ⟨?_, ?_, ?_, trivial⟩
  · exact Pool.guarded_of_label rfl trivial
  · exact Pool.guarded_of_label rfl fun _ hstored => nomatch hstored
  · exact Pool.guarded_of_label rfl rfl

/-- A day is granted; half a day later its end is moved to a day from then; and a directory sync grants without an end. -/
def capRequests : ℕ → GrantRequest
  | 0 => .adminCreate oneDay "admin".toList none
  | 1 => .wait 43200000
  | 2 => .edit 0 (some (some 129600000)) none none
  | _ => .provision "bob".toList ["crm".toList]

theorem edits_and_directory_exceed_cap :
    ¬ Capped 1 ((grantPool noClock (noGrants 0 (some 1)) capRequests).run [0, 0, 0, 1, 2, 2, 2, 2, 2]).db ∧
      ¬ Capped 1 ((grantPool noClock (noGrants 0 (some 1)) capRequests).run [3, 3]).db := by
  decide +kernel

end Captivo.Access
