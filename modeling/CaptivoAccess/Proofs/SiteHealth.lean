import CaptivoAccess.Spec.SiteHealth

/-! What a health pass leaves when sites are deleted while it runs. -/

namespace Captivo.SiteHealth

section Write

variable (now : ℤ)

theorem record_id (s : Site) (o : Outcome) : (s.record now o).id = s.id := by
  unfold Site.record
  split_ifs
  · rfl
  · rfl

/-- A site after all updates. -/
def recordAll (outcomes : List Outcome) (s : Site) : Site := outcomes.foldl (Site.record now) s

theorem recordAll_id (outcomes : List Outcome) (s : Site) : (recordAll now outcomes s).id = s.id := by
  induction outcomes generalizing s with
  | nil => rfl
  | cons o outcomes ih => exact (ih (s.record now o)).trans (record_id now s o)

/-- The last outcome is the one that stays. -/
theorem recordAll_probed {outcomes : List Outcome} {s : Site} {o : Outcome}
    (h : (outcomes.filter (·.id = s.id)).getLast? = some o) : (recordAll now outcomes s).probed = some (now, o.result) := by
  induction outcomes using List.reverseRecOn with
  | nil => cases h
  | append_singleton outcomes o' ih =>
    have hid : (outcomes.foldl (Site.record now) s).id = s.id := recordAll_id now outcomes s
    rw [List.filter_append, List.filter_singleton] at h
    rw [recordAll, List.foldl_append, List.foldl_cons, List.foldl_nil, Site.record, hid]
    by_cases ho : o'.id = s.id
    · rw [decide_eq_true ho, cond_true, List.getLast?_concat] at h
      rw [if_pos ho.symm, ← Option.some.inj h]
    · rw [decide_eq_false ho, cond_false, List.append_nil] at h
      rw [if_neg (Ne.symm ho)]
      exact ih h

/-- The updates go through exactly when there is a row for each. -/
theorem writeAll_eq (outcomes : List Outcome) (rows : List Site) :
    ((∀ o ∈ outcomes, o.id ∈ rows.map Site.id) ∧ writeAll now outcomes rows = (rows.map (recordAll now outcomes), true)) ∨
      (¬ (∀ o ∈ outcomes, o.id ∈ rows.map Site.id) ∧ (writeAll now outcomes rows).2 = false) := by
  induction outcomes generalizing rows with
  | nil => exact Or.inl ⟨nofun, congrArg (·, true) (List.map_id rows).symm⟩
  | cons o outcomes ih =>
    have hids : (rows.map fun s => s.record now o).map Site.id = rows.map Site.id := by
      rw [List.map_map]
      exact List.map_congr_left fun s _ => record_id now s o
    have hany : rows.any (·.id = o.id) = true ↔ o.id ∈ rows.map Site.id := by simp
    rw [writeAll, List.forall_mem_cons]
    by_cases hrow : o.id ∈ rows.map Site.id
    · rw [if_pos (hany.2 hrow), ← hids]
      refine (ih (rows.map fun s => s.record now o)).imp (fun h => ⟨⟨hids ▸ hrow, h.1⟩, ?_⟩) fun h => ⟨fun h' => h.1 h'.2, h.2⟩
      rw [h.2, List.map_map]
      rfl
    · rw [if_neg (mt hany.1 hrow)]
      exact Or.inr ⟨fun h => hrow h.1, rfl⟩

end Write

/-- No site is deleted while it is being probed. -/
def Undisturbed (env : Env) (s : State) (scope : Scope) : Prop :=
  ∀ o ∈ env.outcomes scope (s.sites scope), o.id ∉ env.deleted scope

/-- Every site that is still there shows the outcome of its probe; the last one, if it was probed in both ways. -/
def Recorded (env : Env) (s s' : State) (scope : Scope) : Prop :=
  ∀ site ∈ s.sites scope, site.id ∉ env.deleted scope →
    ∀ o, ((env.outcomes scope (s.sites scope)).filter (·.id = site.id)).getLast? = some o →
      ∃ row ∈ s'.sites scope, row.id = site.id ∧ row.probed = some (env.now scope, o.result)

variable {env : Env} {s : State} {scope : Scope}

/-- What is probed was read. -/
theorem outcome_id_mem {sites : List Site} {o : Outcome} (h : o ∈ env.outcomes scope sites) : o.id ∈ sites.map Site.id := by
  obtain ⟨⟨target, n⟩, hmem, rfl⟩ := List.mem_map.1 h
  rcases List.mem_append.1 (List.fst_mem_of_mem_zipIdx hmem) with ht | ht
  · obtain ⟨site, hsite, heq⟩ := List.mem_filterMap.1 ht
    obtain ⟨url, -, rfl⟩ := Option.map_eq_some_iff.1 heq
    exact List.mem_map_of_mem hsite
  · obtain ⟨site, hsite, heq⟩ := List.mem_filterMap.1 ht
    obtain ⟨vc, -, rfl⟩ := Option.map_eq_some_iff.1 heq
    exact List.mem_map_of_mem (List.mem_of_mem_filter hsite)

theorem undisturbed_iff : Undisturbed env s scope ↔ ∀ o ∈ env.outcomes scope (s.sites scope),
    o.id ∈ ((s.sites scope).filter fun site => site.id ∉ env.deleted scope).map Site.id := by
  refine forall₂_congr fun o ho => ⟨fun hfree => ?_, fun hmem => ?_⟩
  · obtain ⟨site, hsite, hid⟩ := List.mem_map.1 (outcome_id_mem ho)
    exact List.mem_map.2 ⟨site, List.mem_filter.2 ⟨hsite, by simpa [hid] using hfree⟩, hid⟩
  · obtain ⟨site, hsite, hid⟩ := List.mem_map.1 hmem
    simpa [hid] using (List.mem_filter.1 hsite).2

/-- The rows of a tenant after a pass that was not disturbed. -/
def recorded (env : Env) (s : State) (scope : Scope) : List Site :=
  ((s.sites scope).filter fun site => site.id ∉ env.deleted scope).map
    (recordAll (env.now scope) (env.outcomes scope (s.sites scope)))

theorem recorded_spec {s' : State} (h : s'.sites scope = recorded env s scope) : Recorded env s s' scope := by
  intro site hsite hfree o ho
  refine ⟨recordAll (env.now scope) (env.outcomes scope (s.sites scope)) site, ?_, recordAll_id _ _ _, recordAll_probed _ ho⟩
  rw [h]
  exact List.mem_map_of_mem (List.mem_filter.2 ⟨hsite, decide_eq_true hfree⟩)

/-- One tenant's turn. -/
theorem job_cases (env : Env) (s : State) (scope : Scope) : ∃ s₁ summary, job env scope s = (s₁, summary) ∧
    (∀ other ≠ scope, s₁.sites other = s.sites other) ∧
    (Undisturbed env s scope ∧ summary.isSome = true ∧ s₁.sites scope = recorded env s scope ∧ s₁.repushed = s.repushed ++ [scope] ∨
      ¬ Undisturbed env s scope ∧ summary = none ∧ s₁.repushed = s.repushed) := by
  rw [undisturbed_iff]
  rcases writeAll_eq (env.now scope) (env.outcomes scope (s.sites scope))
      ((s.sites scope).filter fun site => site.id ∉ env.deleted scope) with ⟨hall, hwrite⟩ | ⟨hmiss, hfail⟩
  · simp only [job, hwrite]
    exact ⟨_, _, rfl, fun other hne => Function.update_of_ne hne _ _, Or.inl ⟨hall, rfl, Function.update_self _ _ _, rfl⟩⟩
  · simp only [job]
    generalize writeAll _ _ _ = out at hfail
    obtain ⟨written, ok⟩ := out
    obtain rfl : ok = false := hfail
    exact ⟨_, _, rfl, fun other hne => Function.update_of_ne hne _ _, Or.inr ⟨hmiss, rfl, rfl⟩⟩

theorem pass_congr {s₁ : State} (h : s₁.sites scope = s.sites scope) :
    (Undisturbed env s₁ scope ↔ Undisturbed env s scope) ∧ recorded env s₁ scope = recorded env s scope := by
  rw [Undisturbed, recorded, h]
  exact ⟨Iff.rfl, rfl⟩

/-- The tenants before the first whose pass is disturbed have their turn. -/
theorem forEach_cases {scopes : List Scope} (hnodup : scopes.Nodup) (s : State) :
    ((∀ scope ∈ scopes, Undisturbed env s scope ∧ (forEach env scopes s).1.sites scope = recorded env s scope) ∧
        (forEach env scopes s).1.repushed = s.repushed ++ scopes ∨
      ¬ (∀ scope ∈ scopes, Undisturbed env s scope) ∧ (forEach env scopes s).1.repushed ≠ s.repushed ++ scopes) ∧
    ∀ other ∉ scopes, (forEach env scopes s).1.sites other = s.sites other := by
  induction scopes generalizing s with
  | nil => exact ⟨Or.inl ⟨nofun, (List.append_nil _).symm⟩, fun _ _ => rfl⟩
  | cons scope scopes ih =>
    obtain ⟨hnew, hnodup⟩ := List.nodup_cons.1 hnodup
    obtain ⟨s₁, summary, hjob, hsites, ⟨hcalm, hsome, hrows, hpushed₁⟩ | ⟨hdisturbed, rfl, hpushed⟩⟩ := job_cases env s scope
    · obtain ⟨hrest, hother⟩ := ih hnodup s₁
      obtain ⟨summary, rfl⟩ := Option.isSome_iff_exists.1 hsome
      -- the rows of the tenants that follow are as they were
      have hlater : ∀ other ∈ scopes, s₁.sites other = s.sites other := fun other h => hsites other fun heq => hnew (heq ▸ h)
      simp only [forEach, hjob, Prod.map_fst, id, List.forall_mem_cons]
      rw [List.append_cons, ← hpushed₁]
      refine ⟨?_, fun other hne => ?_⟩
      · rcases hrest with ⟨hall, hpushed⟩ | ⟨hsome, hpushed⟩
        · refine Or.inl ⟨⟨⟨hcalm, (hother scope hnew).trans hrows⟩, fun other h => ?_⟩, hpushed⟩
          obtain ⟨hiff, heq⟩ := @pass_congr env s other s₁ (hlater other h)
          exact ⟨hiff.1 (hall other h).1, (hall other h).2.trans heq⟩
        · exact Or.inr ⟨fun h => hsome fun other hmem => (pass_congr (hlater other hmem)).1.2 (h.2 other hmem), hpushed⟩
      · rw [List.mem_cons, not_or] at hne
        exact (hother other hne.2).trans (hsites other hne.1)
    · simp only [forEach, hjob]
      refine ⟨Or.inr ⟨fun h => hdisturbed (h scope List.mem_cons_self), fun h => ?_⟩, fun other hne => ?_⟩
      · exact absurd (List.self_eq_append_right.1 (hpushed.symm.trans h)) (List.cons_ne_nil _ _)
      · exact hsites other (List.ne_of_not_mem_cons hne)

/-- Every site that is still there has the outcome of its probe, and the pending erasures of every tenant are pushed again, exactly
when no site that is being probed is deleted before the outcomes of its tenant are written. -/
theorem health_pass_complete_iff (env : Env) (s : State) :
    let s' := (post env true s).1
    ((∀ scope ∈ env.scopes, Recorded env s s' scope) ∧ s'.repushed = s.repushed ++ env.scopes) ↔
      ∀ scope ∈ env.scopes, Undisturbed env s scope := by
  intro s'
  have hnodup : env.scopes.Nodup := by
    unfold Env.scopes
    split_ifs
    · exact env.distinct.map (Option.some_injective _)
    · exact List.nodup_singleton _
  obtain ⟨⟨hall, hpushed⟩ | ⟨hsome, hpushed⟩, -⟩ := @forEach_cases env _ hnodup s
  · exact iff_of_true ⟨fun scope hscope => recorded_spec (hall scope hscope).2, hpushed⟩ fun scope hscope => (hall scope hscope).1
  · exact iff_of_false (fun h => hpushed h.2) hsome

/-- A site of the first tenant is deleted while it is probed. -/
def twoTenants : Env where
  multiTenant := true
  activeTenants := ["t1", "t2"]
  distinct := by decide
  probeConnector _ _ _ := .ok 5
  now _ := 10
  deleted scope := if scope = some "t1" then ["s1"] else []

def threeSites : State where
  sites
    | some "t1" => [⟨"s1", "c1", some "http://a", false, none, none⟩, ⟨"s2", "c1", some "http://b", false, none, none⟩]
    | some "t2" => [⟨"s3", "c2", some "http://c", false, none, none⟩]
    | _ => []
  repushed := []

/-- Neither the other site of the tenant nor that of the next one gets its result, and no erasure is pushed again. -/
theorem deletion_ends_pass :
    (post twoTenants true threeSites).2 = 500 ∧ (post twoTenants true threeSites).1.repushed = [] ∧
    (post twoTenants true threeSites).1.sites (some "t1") = [⟨"s2", "c1", some "http://b", false, none, none⟩] ∧
    (post twoTenants true threeSites).1.sites (some "t2") = [⟨"s3", "c2", some "http://c", false, none, none⟩] := by
  decide +kernel

end Captivo.SiteHealth
