import CaptivoAccess.Sanity.AuditLog

/-! What becomes of a batch of audit events. The route appends group by group, and an
event that the database rejects ends it; every event is accounted for exactly when
there is none in the batch. -/

namespace Captivo.Audit

open Lib.JsonText Lib.JsValue Lib.HashChain Lib.Group

/-- The tenant an event is grouped under. -/
def groupTenant (env : LogEnv) (e : AuditInput) : Option Units := ((resolveEventTenant env e).join).filter (· ≠ [])

/-- The tenant whose chain an event belongs to. -/
def tenantOf (env : LogEnv) (e : AuditInput) : Option Units :=
  if env.multiTenant then groupTenant env e else some defaultTenant

/-- No statement made for the event is rejected: its tenant is looked up, and if it has one its row is stored. -/
def clean (env : LogEnv) (now : ℤ) (db : Db) (e : AuditInput) : Bool :=
  (!env.multiTenant || (resolveEventTenant env e).isSome) &&
    (tenantOf env e).all fun t => storable (normalizeAuditInput (db t) now e)

/-- The events of the batch that `t`'s chain has to get. -/
def owed (env : LogEnv) (now : ℤ) (db : Db) (events : List AuditInput) (t : Units) : List AuditInput :=
  events.filter fun e => decide (tenantOf env e = some t) && storable (normalizeAuditInput (db t) now e)

/-- Every storable event is appended to its tenant's chain and no other, and the answer counts the rest. -/
structure Accounted (env : LogEnv) (now : ℤ) (db : Db) (events : List AuditInput) (out : Db × LogResponse) : Prop where
  answered : ∃ inserted dropped, out.2 = .ok inserted dropped ∧ inserted + dropped.getD 0 = events.length
  appended : ∀ t, out.1 t = extend env.sha256 env.toISOString (db t) now (owed env now db events t)

variable {events : List AuditInput} {env : LogEnv} {db : Db}

theorem owed_of_clean {now : ℤ}
    (h : ∀ e ∈ events, clean env now db e = true) (t : Units) :
    owed env now db events t = events.filter fun e => decide (tenantOf env e = some t) := by
  apply List.filter_congr
  intro e he
  by_cases ht : tenantOf env e = some t
  · have hc := h e he
    simp only [clean, ht, Option.all_some, Bool.and_eq_true] at hc
    simp [ht, hc.2]
  · simp [ht]

/-! The loop over the events. -/

theorem groupEvents_of_rejected {e : AuditInput} (hr : resolveEventTenant env e = none)
    (he : e ∈ events) (groups : Groups Units AuditInput) (dropped : ℕ) :
    groupEvents env groups dropped events = none := by
  induction events generalizing groups dropped with
  | nil => simp at he
  | cons f events ih =>
    rcases List.mem_cons.1 he with rfl | he
    · rw [groupEvents, hr]
    · rw [groupEvents]
      split
      · rfl
      · split
        · exact ih he _ _
        · exact ih he _ _

/-- Each tenant's group gets the tenant's events, in order, and no event is counted twice. -/
structure Grouped (env : LogEnv) (groups : Groups Units AuditInput) (dropped : ℕ) (events : List AuditInput)
    (out : Groups Units AuditInput × ℕ) : Prop where
  group : ∀ t, groupOf t out.1 = groupOf t groups ++ events.filter fun e => decide (groupTenant env e = some t)
  nodup : (keys groups).Nodup → (keys out.1).Nodup
  count : total out.1 + out.2 = total groups + dropped + events.length

theorem groupEvents_spec
    (h : ∀ e ∈ events, (resolveEventTenant env e).isSome = true) (groups : Groups Units AuditInput) (dropped : ℕ) :
    ∃ out, groupEvents env groups dropped events = some out ∧ Grouped env groups dropped events out := by
  induction events generalizing groups dropped with
  | nil => exact ⟨(groups, dropped), rfl, fun t => by simp, id, rfl⟩
  | cons e events ih =>
    obtain ⟨he, hrest⟩ := List.forall_mem_cons.1 h
    obtain ⟨tid, htid⟩ := Option.isSome_iff_exists.1 he
    have hgt : groupTenant env e = tid.filter (· ≠ []) := by rw [groupTenant, htid, Option.join_some]
    cases hf : tid.filter (· ≠ []) with
    | none =>
      rw [hf] at hgt
      obtain ⟨out, ho, hg⟩ := ih hrest groups (dropped + 1)
      refine ⟨out, by simp only [groupEvents, htid, hf, ho], fun t => ?_, hg.nodup, ?_⟩
      · rw [hg.group t, List.filter_cons_of_neg (by simp [hgt])]
      · rw [hg.count, List.length_cons]
        omega
    | some tid =>
      rw [hf] at hgt
      obtain ⟨out, ho, hg⟩ := ih hrest (push tid e groups) dropped
      refine ⟨out, by simp only [groupEvents, htid, hf, ho], fun t => ?_, fun hn => hg.nodup (nodup_push hn), ?_⟩
      · rw [hg.group t, groupOf_push, List.append_assoc]
        by_cases ht : tid = t
        · rw [List.filter_cons_of_pos (by simp [hgt, ht])]
          simp [ht]
        · rw [List.filter_cons_of_neg (by simp [hgt, ht])]
          simp [ht]
      · rw [hg.count, total_push, List.length_cons]
        omega

/-! The loop over the groups. -/

theorem appendGroups_of_unstorable (env : LogEnv) (now : ℤ) {t : Units} {e : AuditInput}
    {groups : Groups Units AuditInput} (he : e ∈ groupOf t groups)
    (hs : storable (normalizeAuditInput (db t) now e) = false) (n : ℕ) : (appendGroups env now db n groups).2 = none := by
  induction groups generalizing db n with
  | nil => simp [groupOf] at he
  | cons g groups ih =>
    obtain ⟨tid, group⟩ := g
    rw [appendGroups, appendAuditEvents_eq]
    by_cases ht : tid = t
    · subst ht
      rw [groupOf, if_pos rfl] at he
      have hnot : ¬ ∀ e ∈ group, storable (normalizeAuditInput (db tid) now e) = true := by
        intro hall
        rw [hall e he] at hs
        cases hs
      rw [if_neg hnot]
    · rw [groupOf, if_neg ht] at he
      split_ifs with hall
      · apply ih he
        rwa [Function.update_of_ne (Ne.symm ht)]
      · rfl

theorem appendGroups_of_storable (env : LogEnv) (now : ℤ) {groups : Groups Units AuditInput} (hn : (keys groups).Nodup)
    (hs : ∀ t, ∀ e ∈ groupOf t groups, storable (normalizeAuditInput (db t) now e) = true) (n : ℕ) :
    ∃ db', appendGroups env now db n groups = (db', some (n + total groups)) ∧
      ∀ t, db' t = extend env.sha256 env.toISOString (db t) now (groupOf t groups) := by
  induction groups generalizing db n with
  | nil => exact ⟨db, rfl, fun t => (extend_nil _ _ _ _).symm⟩
  | cons g groups ih =>
    obtain ⟨tid, group⟩ := g
    simp only [keys, List.map_cons, List.nodup_cons] at hn
    have hgroup : groupOf tid ((tid, group) :: groups) = group := by rw [groupOf, if_pos rfl]
    have hother : ∀ t, t ≠ tid → groupOf t ((tid, group) :: groups) = groupOf t groups := by
      intro t ht
      rw [groupOf, if_neg (Ne.symm ht)]
    have hown := hs tid
    rw [hgroup] at hown
    set tenant := extend env.sha256 env.toISOString (db tid) now group with htenant
    -- the tenant just written has no second group, so the other groups see what they saw before
    have hrest : ∀ t, ∀ e ∈ groupOf t groups,
        storable (normalizeAuditInput (Function.update db tid tenant t) now e) = true := by
      intro t e he
      by_cases ht : t = tid
      · subst ht
        rw [groupOf_eq_nil hn.1] at he
        simp at he
      · rw [Function.update_of_ne ht]
        exact hs t e (by rwa [hother t ht])
    obtain ⟨db', hrun, hdb'⟩ := ih hn.2 hrest (n + group.length)
    refine ⟨db', ?_, fun t => ?_⟩
    · rw [appendGroups, appendAuditEvents_eq, if_pos hown]
      simp only [← htenant, hrun, total, List.map_cons, List.sum_cons, Nat.add_assoc]
    · rw [hdb' t]
      by_cases ht : t = tid
      · subst ht
        rw [groupOf_eq_nil hn.1, extend_nil, Function.update_self, hgroup]
      · rw [Function.update_of_ne ht, hother t ht]

/-! The route. -/

theorem accounted_self_host_iff (hm : env.multiTenant = false) (now : ℤ) (db : Db)
    (events : List AuditInput) :
    Accounted env now db events (logHandler env now db events) ↔ ∀ e ∈ events, clean env now db e = true := by
  have hclean : ∀ e, clean env now db e = storable (normalizeAuditInput (db defaultTenant) now e) := by
    intro e
    simp [clean, tenantOf, hm]
  by_cases hall : ∀ e ∈ events, storable (normalizeAuditInput (db defaultTenant) now e) = true
  · have hc : ∀ e ∈ events, clean env now db e = true := by simpa only [hclean] using hall
    refine ⟨fun _ => hc, fun _ => ?_⟩
    rw [logHandler, hm, appendAuditEvents_eq, if_pos hall]
    refine ⟨⟨_, _, rfl, rfl⟩, fun t => ?_⟩
    rw [owed_of_clean hc]
    by_cases ht : t = defaultTenant
    · subst ht
      simp [tenantOf, hm]
    · simp [tenantOf, hm, Ne.symm ht, ht, extend_nil]
  · refine ⟨?_, fun hc => absurd (by simpa only [hclean] using hc) hall⟩
    intro h
    obtain ⟨inserted, dropped, ho, -⟩ := h.answered
    rw [logHandler, hm, appendAuditEvents_eq, if_neg hall] at ho
    cases ho

theorem accounted_of_clean (hm : env.multiTenant = true) (now : ℤ) (db : Db)
    (hc : ∀ e ∈ events, clean env now db e = true) : Accounted env now db events (logHandler env now db events) := by
  have hresolved : ∀ e ∈ events, (resolveEventTenant env e).isSome = true := by
    intro e he
    have h := hc e he
    simp only [clean, hm, Bool.not_true, Bool.false_or, Bool.and_eq_true] at h
    exact h.1
  obtain ⟨⟨groups, dropped⟩, hg, hspec⟩ := groupEvents_spec hresolved [] 0
  have hgroup : ∀ t, groupOf t groups = owed env now db events t := by
    intro t
    rw [hspec.group t, owed_of_clean hc]
    simp [groupOf, tenantOf, hm]
  have hs : ∀ t, ∀ e ∈ groupOf t groups, storable (normalizeAuditInput (db t) now e) = true := by
    intro t e he
    rw [hgroup t, owed, List.mem_filter, Bool.and_eq_true] at he
    exact he.2.2
  obtain ⟨db', hrun, hdb'⟩ := appendGroups_of_storable env now (hspec.nodup List.nodup_nil) hs 0
  have hcount := hspec.count
  simp only [total, List.map_nil, List.sum_nil] at hcount
  rw [logHandler, if_pos hm, hg]
  simp only [hrun]
  refine ⟨⟨_, _, rfl, ?_⟩, fun t => (hdb' t).trans (by rw [hgroup t])⟩
  simp only [total, Option.getD_some]
  omega

theorem thrown_of_not_clean (hm : env.multiTenant = true) (now : ℤ) (db : Db)
    {e : AuditInput} (he : e ∈ events) (hc : clean env now db e = false) :
    (logHandler env now db events).2 = .thrown := by
  rw [logHandler, if_pos hm]
  by_cases hresolved : ∀ e ∈ events, (resolveEventTenant env e).isSome = true
  · obtain ⟨⟨groups, dropped⟩, hg, hspec⟩ := groupEvents_spec hresolved [] 0
    simp only [clean, tenantOf, hm, hresolved e he, if_true, Bool.not_true, Bool.false_or, Bool.true_and] at hc
    obtain ⟨t, ht, hs⟩ : ∃ t, groupTenant env e = some t ∧ storable (normalizeAuditInput (db t) now e) = false := by
      cases hgt : groupTenant env e with
      | none => simp [hgt] at hc
      | some t => exact ⟨t, rfl, by simpa [hgt] using hc⟩
    have hmem : e ∈ groupOf t groups := by
      rw [hspec.group t]
      simp [groupOf, he, ht]
    have hnone := appendGroups_of_unstorable env now hmem hs 0
    rw [hg]
    simp only
    split
    · rfl
    · rename_i heq
      rw [heq] at hnone
      cases hnone
  · obtain ⟨f, hf, hr⟩ : ∃ f ∈ events, resolveEventTenant env f = none := by
      by_contra hno
      apply hresolved
      intro f hf
      rw [Option.isSome_iff_ne_none]
      exact fun hr => hno ⟨f, hf, hr⟩
    rw [groupEvents_of_rejected hr hf]

/-! Whatever is lost, the chains that remain verify. -/

/-- A batch of the data plane is accounted for exactly when no event of it is rejected. -/
theorem batch_accounted_iff (env : LogEnv) (now : ℤ) (db : Db) (evs : List AuditEvent) :
    Accounted env now db (evs.map AuditEvent.json) (postLog env now db true (evs.map AuditEvent.json)) ↔
      ∀ ev ∈ evs, clean env now db ev.json = true := by
  rw [postLog, if_pos rfl, ← List.forall_mem_map (P := fun e => clean env now db e = true)]
  cases hm : env.multiTenant with
  | false => exact accounted_self_host_iff hm now db _
  | true =>
    refine ⟨fun h => ?_, accounted_of_clean hm now db⟩
    by_contra hno
    simp only [not_forall, Bool.not_eq_true] at hno
    obtain ⟨e, he, hc⟩ := hno
    obtain ⟨inserted, dropped, ho, -⟩ := h.answered
    rw [thrown_of_not_clean hm now db he hc] at ho
    cases ho

/-- Two tenants with one site each. -/
def nulEnv : LogEnv where
  multiTenant := true
  sha256 := fun _ => []
  toISOString := fun _ => []
  bySite := fun id =>
    if id = units "s1" then some (units "t1") else if id = units "s2" then some (units "t2") else none
  byHostname := fun _ => none
  hostKey := id

def nulDb : Db := fun _ => ⟨fun _ => none, fun _ => none, none, []⟩

/-- `GET /x%00` on the first tenant's site and `GET /` on the second's. -/
def nulQueue : AuditQueue :=
  let get (path : Lib.Utf8.Bytes) : Request := ⟨Lib.Utf8.ascii "GET", path, [], Lib.Utf8.ascii "curl"⟩
  ((NewAuditQueue 10000).enqueue (auditEvent id 0 (Lib.Utf8.ascii "ALLOW") [] (Lib.Utf8.ascii "u1")
      (Lib.Utf8.ascii "s1") (Lib.Utf8.ascii "a.example") (get [47, 120, 0]) 200 0)).enqueue
    (auditEvent id 0 (Lib.Utf8.ascii "ALLOW") [] (Lib.Utf8.ascii "u2") (Lib.Utf8.ascii "s2")
      (Lib.Utf8.ascii "b.example") (get [47]) 200 0)

/-- The path of one tenant's user loses the event of another's: the route throws before it
comes to the second group, and the queue has let both go. -/
theorem nul_path_loses_other_tenant :
    (postLog nulEnv 0 nulDb true ((nulQueue.drain 200).1.map AuditEvent.json)).2 = .thrown ∧
    (owed nulEnv 0 nulDb ((nulQueue.drain 200).1.map AuditEvent.json) (units "t2")).length = 1 ∧
    ((runAuditFlush nulEnv 0 nulQueue nulDb 200).2 (units "t2")).rows = [] ∧
    (runAuditFlush nulEnv 0 nulQueue nulDb 200).1.buf = [] := by
  refine ⟨?_, ?_, ?_, ?_⟩ <;> decide +kernel

end Captivo.Audit
