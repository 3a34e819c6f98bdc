import CaptivoAccess.Lib.Run
import CaptivoAccess.Spec.SessionPolicy

/-! When the session policy cache keeps tenants apart. The slot is shared and not
keyed, so what a call returns is the caller's own policy as long as every hit is on
an entry the same tenant filled. A fill behind a later save and a failed read are
the two other ways to return a policy that is not the tenant's. -/

namespace Captivo.Policy

open Lib.Run

/-- The steps on which the cache is sound. -/
def Sound (s : Proc) : Event → Prop
  | .call _ tenant _ => ∀ c, s.hit = some c → c.filledBy = tenant
  | .readFails id => ∀ c, s.calls id = some c → policyOf (s.rows c.tenant) = EMPTY
  | .fill id => ∀ c row, s.calls id = some c → c.row = some row → s.rows c.tenant = row
  | _ => True

/-- `policy` was the tenant's at some time in the TTL before `time`. -/
def Proc.Recent (s : Proc) (tenant : String) (policy : SessionPolicy) (time : ℕ) : Prop :=
  ∃ t, t ≤ time ∧ time ≤ t + ttlMs ∧ s.StoredAt tenant policy t

structure Inv (s : Proc) : Prop where
  since : ∀ tenant, s.since tenant ≤ s.now
  cache : ∀ c, s.cache = some c → c.filledAt ≤ s.now ∧ s.StoredAt c.filledBy c.policy c.filledAt
  answers : ∀ a ∈ s.answers, a.time ≤ s.now ∧ s.Recent a.tenant a.policy a.time

theorem storedAt_now {s : Proc} (h : Inv s) (tenant : String) :
    s.StoredAt tenant (policyOf (s.rows tenant)) s.now := Or.inl ⟨rfl, h.since tenant⟩

theorem storedAt_commit {s : Proc} {tenant u : String} {policy p : SessionPolicy} {t : ℕ} (ht : t ≤ s.now)
    (h : s.StoredAt tenant policy t) : (step s (.commit u p)).StoredAt tenant policy t := by
  rcases h with ⟨hp, hs⟩ | ⟨q, hq, hrest⟩
  · by_cases hu : tenant = u
    · subst hu
      exact Or.inr ⟨_, List.mem_cons_self, rfl, hp, hs, ht⟩
    · refine Or.inl ⟨?_, ?_⟩
      · simpa only [step, Function.update_of_ne hu] using hp
      · simpa only [step, Function.update_of_ne hu] using hs
  · exact Or.inr ⟨q, List.mem_cons_of_mem _ hq, hrest⟩

theorem inv_commit {s : Proc} (h : Inv s) (u : String) (p : SessionPolicy) : Inv (step s (.commit u p)) where
  since tenant := by
    by_cases hu : tenant = u
    · simp only [step, hu, Function.update_self]
      exact le_rfl
    · simpa only [step, Function.update_of_ne hu] using h.since tenant
  cache c hc := by
    obtain ⟨hle, hst⟩ := h.cache c hc
    exact ⟨hle, storedAt_commit hle hst⟩
  answers a ha := by
    obtain ⟨hle, t, h1, h2, hst⟩ := h.answers a ha
    exact ⟨hle, t, h1, h2, storedAt_commit (h1.trans hle) hst⟩

theorem inv_answer {s : Proc} (h : Inv s) {tenant : String} (purpose : Purpose) {policy : SessionPolicy}
    (hr : s.Recent tenant policy s.now) : Inv (s.answer tenant purpose policy) where
  since := h.since
  cache := h.cache
  answers a ha := by
    rcases List.mem_append.mp ha with ha | ha
    · exact h.answers a ha
    · rw [List.mem_singleton.mp ha]
      exact ⟨le_rfl, hr⟩

theorem recent_now {s : Proc} {tenant : String} {policy : SessionPolicy} (h : s.StoredAt tenant policy s.now) :
    s.Recent tenant policy s.now := ⟨s.now, le_rfl, Nat.le_add_right _ _, h⟩

theorem hit_eq {s : Proc} {c : Cache} (h : s.hit = some c) : s.cache = some c ∧ s.now < c.filledAt + ttlMs := by
  obtain ⟨h1, h2⟩ := Option.filter_eq_some_iff.mp h
  exact ⟨h1, by simpa using h2⟩

theorem inv_step (s : Proc) (e : Event) (h : Inv s) (hs : Sound s e) : Inv (step s e) := by
  cases e with
  | tick ms =>
    exact ⟨fun tenant => (h.since tenant).trans (Nat.le_add_right _ _),
      fun c hc => ⟨(h.cache c hc).1.trans (Nat.le_add_right _ _), (h.cache c hc).2⟩,
      fun a ha => ⟨(h.answers a ha).1.trans (Nat.le_add_right _ _), (h.answers a ha).2⟩⟩
  | call id tenant purpose =>
    simp only [step]
    split
    · rename_i c hc
      obtain ⟨hcache, hlt⟩ := hit_eq hc
      obtain ⟨hle, hst⟩ := h.cache c hcache
      rw [hs c hc] at hst
      exact inv_answer h purpose ⟨c.filledAt, hle, hlt.le, hst⟩
    · exact ⟨h.since, h.cache, h.answers⟩
  | read id =>
    simp only [step]
    split
    · exact ⟨h.since, h.cache, h.answers⟩
    · exact h
  | readFails id =>
    simp only [step]
    split
    · rename_i tenant purpose hc
      have hst := storedAt_now h tenant
      rw [hs _ hc] at hst
      have hinv : Inv { s with calls := Function.update s.calls id none } := ⟨h.since, h.cache, h.answers⟩
      exact inv_answer hinv purpose (recent_now hst)
    · exact h
  | fill id =>
    simp only [step]
    split
    · rename_i tenant purpose row hc
      have hst := storedAt_now h tenant
      rw [hs _ row hc rfl] at hst
      have hinv : Inv { s with
          calls := Function.update s.calls id none
          cache := some ⟨policyOf row, s.now, tenant⟩ } := by
        refine ⟨h.since, fun c he => ?_, h.answers⟩
        rw [← Option.some.inj he]
        exact ⟨le_rfl, hst⟩
      exact inv_answer hinv purpose (recent_now hst)
    · exact h
  | commit tenant policy => exact inv_commit h tenant policy
  | invalidate => exact ⟨h.since, fun c hc => absurd hc (by simp [step]), h.answers⟩

theorem inv_init (rows : String → Option SessionPolicy) : Inv (Proc.init rows) where
  since _ := le_rfl
  cache c hc := absurd hc (by simp [Proc.init])
  answers a ha := absurd ha (by simp [Proc.init])

/-! Two runs that differ in what other tenants save. -/

/-- The same event, up to the policy that a tenant other than `t` saves. -/
inductive SameBut (t : String) : Event → Event → Prop
  | same (e : Event) : SameBut t e e
  | other (u : String) (p p' : SessionPolicy) : u ≠ t → SameBut t (.commit u p) (.commit u p')

structure CacheAlike (t : String) (c c' : Cache) : Prop where
  filledAt : c.filledAt = c'.filledAt
  filledBy : c.filledBy = c'.filledBy
  policy : c.filledBy = t → c.policy = c'.policy

structure CallAlike (t : String) (c c' : Call) : Prop where
  who : c.tenant = c'.tenant
  purpose : c.purpose = c'.purpose
  isSome : c.row.isSome = c'.row.isSome
  row : c.tenant = t → c.row = c'.row

/-- Two states that the tenant `t` cannot tell apart. -/
structure Alike (t : String) (s s' : Proc) : Prop where
  now : s.now = s'.now
  row : s.rows t = s'.rows t
  cache : Option.Rel (CacheAlike t) s.cache s'.cache
  calls : ∀ id, Option.Rel (CallAlike t) (s.calls id) (s'.calls id)
  decisions : s.decisions t = s'.decisions t

section Alike

variable {t : String} {s s' : Proc}

theorem alike_answer (h : Alike t s s') {u : String} (purpose : Purpose) {p p' : SessionPolicy}
    (hp : u = t → p = p') : Alike t (s.answer u purpose p) (s'.answer u purpose p') where
  now := h.now
  row := h.row
  cache := h.cache
  calls := h.calls
  decisions := by
    have hd := h.decisions
    unfold Proc.decisions at hd
    simp only [Proc.decisions, Proc.answer, List.filter_append, List.map_append, hd, List.append_cancel_left_eq]
    by_cases hu : u = t
    · simp [hu, hp hu, h.now]
    · simp [hu]

theorem alike_update {c c' : Option Call} (h : Alike t s s') (id : ℕ) (hc : Option.Rel (CallAlike t) c c') :
    Alike t { s with calls := Function.update s.calls id c } { s' with calls := Function.update s'.calls id c' } where
  now := h.now
  row := h.row
  cache := h.cache
  calls i := by
    by_cases hi : i = id
    · subst hi
      simpa only [Function.update_self] using hc
    · simpa only [Function.update_of_ne hi] using h.calls i
  decisions := h.decisions

theorem alike_cache {c c' : Option Cache} (h : Alike t s s') (hc : Option.Rel (CacheAlike t) c c') :
    Alike t { s with cache := c } { s' with cache := c' } := ⟨h.now, h.row, hc, h.calls, h.decisions⟩

theorem alike_hit (h : Alike t s s') :
    (s.hit = none ∧ s'.hit = none) ∨ ∃ c c', s.hit = some c ∧ s'.hit = some c' ∧ CacheAlike t c c' := by
  have hc := h.cache
  unfold Proc.hit
  generalize s.cache = c, s'.cache = c' at hc
  cases hc with
  | none => exact Or.inl ⟨rfl, rfl⟩
  | @some c c' hcc =>
    by_cases hlt : s.now < c.filledAt + ttlMs
    · right
      refine ⟨c, c', Option.filter_some_pos (by simpa using hlt), Option.filter_some_pos ?_, hcc⟩
      rw [← h.now, ← hcc.filledAt]
      simpa using hlt
    · left
      refine ⟨Option.filter_some_neg (by simpa using hlt), Option.filter_some_neg ?_⟩
      rw [← h.now, ← hcc.filledAt]
      simpa using hlt

theorem alike_calls (h : Alike t s s') (id : ℕ) :
    (s.calls id = none ∧ s'.calls id = none) ∨
    (∃ u purpose, s.calls id = some ⟨u, purpose, none⟩ ∧ s'.calls id = some ⟨u, purpose, none⟩) ∨
    ∃ u purpose row row', s.calls id = some ⟨u, purpose, some row⟩ ∧ s'.calls id = some ⟨u, purpose, some row'⟩ ∧
      (u = t → row = row') := by
  have hc := h.calls id
  generalize s.calls id = c, s'.calls id = c' at hc
  cases hc with
  | none => exact Or.inl ⟨rfl, rfl⟩
  | @some c c' hcc =>
    right
    obtain ⟨u, purpose, row⟩ := c
    obtain ⟨u', purpose', row'⟩ := c'
    obtain ⟨rfl, rfl, hsome, hrow⟩ := hcc
    cases row with
    | none =>
      cases row' with
      | none => exact Or.inl ⟨_, _, rfl, rfl⟩
      | some r' => cases hsome
    | some r =>
      cases row' with
      | none => cases hsome
      | some r' => exact Or.inr ⟨_, _, r, r', rfl, rfl, fun hu => Option.some.inj (hrow hu)⟩

theorem alike_commit (h : Alike t s s') (u : String) {p p' : SessionPolicy} (hp : u = t → p = p') :
    Alike t (step s (.commit u p)) (step s' (.commit u p')) where
  now := h.now
  row := by
    by_cases hu : t = u
    · simp only [step, ← hu, Function.update_self, hp hu.symm]
    · simpa only [step, Function.update_of_ne hu] using h.row
  cache := h.cache
  calls := h.calls
  decisions := h.decisions

/-- A step that hits only its own tenant's entry looks the same to `t` in both runs. -/
theorem alike_same (h : Alike t s s') (e : Event) (hs : Sound s e) : Alike t (step s e) (step s' e) := by
  cases e with
  | tick ms => exact ⟨congrArg (· + ms) h.now, h.row, h.cache, h.calls, h.decisions⟩
  | call id u purpose =>
    rcases alike_hit h with ⟨h1, h2⟩ | ⟨c, c', h1, h2, hcc⟩
    · simp only [step, h1, h2]
      exact alike_update h id (.some ⟨rfl, rfl, rfl, fun _ => rfl⟩)
    · simp only [step, h1, h2]
      exact alike_answer h purpose fun hu => hcc.policy ((hs c h1).trans hu)
  | read id =>
    rcases alike_calls h id with ⟨h1, h2⟩ | ⟨u, purpose, h1, h2⟩ | ⟨u, purpose, row, row', h1, h2, -⟩
    · simpa only [step, h1, h2] using h
    · simp only [step, h1, h2]
      refine alike_update h id (.some ⟨rfl, rfl, rfl, fun hu => ?_⟩)
      have hu' : u = t := hu
      rw [hu', h.row]
    · simpa only [step, h1, h2] using h
  | readFails id =>
    rcases alike_calls h id with ⟨h1, h2⟩ | ⟨u, purpose, h1, h2⟩ | ⟨u, purpose, row, row', h1, h2, -⟩
    · simpa only [step, h1, h2] using h
    · simp only [step, h1, h2]
      exact alike_answer (alike_update h id .none) purpose fun _ => rfl
    · simpa only [step, h1, h2] using h
  | fill id =>
    rcases alike_calls h id with ⟨h1, h2⟩ | ⟨u, purpose, h1, h2⟩ | ⟨u, purpose, row, row', h1, h2, hrow⟩
    · simpa only [step, h1, h2] using h
    · simpa only [step, h1, h2] using h
    · simp only [step, h1, h2]
      refine alike_answer (alike_cache (alike_update h id .none) (.some ?_)) purpose fun hu => by rw [hrow hu]
      exact ⟨h.now, rfl, fun hu => congrArg policyOf (hrow hu)⟩
  | commit u p => exact alike_commit h u fun _ => rfl
  | invalidate => exact alike_cache h .none

theorem alike_step (s s' : Proc) (e e' : Event) (h : Alike t s s') (he : SameBut t e e') (hs : Sound s e) :
    Alike t (step s e) (step s' e') := by
  cases he with
  | same => exact alike_same h e hs
  | other u p p' hu => exact alike_commit h u fun heq => absurd heq hu

theorem alike_init {rows rows' : String → Option SessionPolicy} (h : rows t = rows' t) :
    Alike t (Proc.init rows) (Proc.init rows') := ⟨rfl, h, .none, fun _ => .none, rfl⟩

end Alike

/-- In every run of sound steps each call returns a policy its tenant had within the TTL, and what
other tenants have or save changes no decision for the users of `t`. -/
theorem session_policy_own (t : String) (rows rows' : String → Option SessionPolicy) (events events' : List Event)
    (hrows : rows t = rows' t) (hevents : List.Forall₂ (SameBut t) events events')
    (h : Meets step Sound (Proc.init rows) events) :
    (∀ a ∈ (events.foldl step (Proc.init rows)).answers,
      (events.foldl step (Proc.init rows)).Recent a.tenant a.policy a.time) ∧
    (events.foldl step (Proc.init rows)).decisions t = (events'.foldl step (Proc.init rows')).decisions t := by
  have hinv : Inv (events.foldl step (Proc.init rows)) := invariant inv_step (inv_init rows) h
  have halike := related alike_step (alike_init hrows) hevents h
  exact ⟨fun a ha => (hinv.answers a ha).2, halike.decisions⟩

/-- Sign-ins refused without a second factor, idle sessions closed after a quarter of an hour. -/
def strict : SessionPolicy := ⟨some 15, none, none, true⟩

def strictFor (tenant : String) : String → Option SessionPolicy := fun u => if u = tenant then some strict else none

/-- One tenant calls twice within the TTL, and another one saves something in between. -/
def twoCalls (saved : SessionPolicy) : List Event :=
  [.call 0 "acme" (.signIn ["pwd"] true), .read 0, .fill 0, .commit "globex" saved,
    .call 1 "acme" (.signIn ["pwd"] true)]

theorem session_policy_own_two_calls :
    (Meets step Sound (Proc.init (strictFor "acme")) (twoCalls strict) ∧
      List.Forall₂ (SameBut "acme") (twoCalls strict) (twoCalls EMPTY)) ∧
    (∀ a ∈ ((twoCalls strict).foldl step (Proc.init (strictFor "acme"))).answers,
      ((twoCalls strict).foldl step (Proc.init (strictFor "acme"))).Recent a.tenant a.policy a.time) ∧
    ((twoCalls strict).foldl step (Proc.init (strictFor "acme"))).decisions "acme" =
      ((twoCalls EMPTY).foldl step (Proc.init (strictFor "acme"))).decisions "acme" := by
  have h : Meets step Sound (Proc.init (strictFor "acme")) (twoCalls strict) := by
    refine ⟨?_, trivial, ?_, trivial, ?_, trivial⟩
    · -- nothing is cached at first
      rintro c ⟨⟩
    · rintro c row ⟨⟩ hrow
      exact Option.some.inj hrow
    · -- the tenant's own call filled the cache
      simp [Sound, step, Proc.init, Proc.hit, Proc.answer, ttlMs]
  have hevents : List.Forall₂ (SameBut "acme") (twoCalls strict) (twoCalls EMPTY) :=
    .cons (.same _) (.cons (.same _) (.cons (.same _) (.cons (.other _ _ _ (by decide)) (.cons (.same _) .nil))))
  exact ⟨⟨h, hevents⟩, session_policy_own "acme" _ _ _ _ rfl hevents h⟩

/-- One tenant's call fills the cache and another tenant's call hits it. -/
def crossCalls : List Event :=
  [.call 0 "acme" (.signIn ["pwd"] true), .read 0, .fill 0, .call 1 "globex" (.signIn ["pwd"] true)]

/-- The second tenant has no policy, gets the first one's, and its user is refused for it. -/
theorem policy_leaks_to_other_tenant :
    ¬ (∀ a ∈ (crossCalls.foldl step (Proc.init (strictFor "acme"))).answers,
        (crossCalls.foldl step (Proc.init (strictFor "acme"))).Recent a.tenant a.policy a.time) ∧
    (crossCalls.foldl step (Proc.init (strictFor "acme"))).decisions "globex" ≠
      (crossCalls.foldl step (Proc.init fun _ => none)).decisions "globex" := by
  have hpast : (crossCalls.foldl step (Proc.init (strictFor "acme"))).past = [] := by decide +kernel
  refine ⟨fun h => ?_, by decide +kernel⟩
  obtain ⟨t, -, -, hst | ⟨p, hp, -⟩⟩ :=
    h ⟨"globex", strict, 0, .signIn .refuse⟩ (by decide +kernel)
  · exact absurd hst.1 (by decide +kernel)
  · rw [hpast] at hp
    simp at hp

end Captivo.Policy
