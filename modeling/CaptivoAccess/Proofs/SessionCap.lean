import CaptivoAccess.Lib.Claims
import CaptivoAccess.Spec.SessionCap

/-! The cap on a user's concurrent sessions. A call makes room for its own session by what
it counted, and sessions that others insert after the count are not in it: calls that
overlap leave more sessions than the cap allows. Where no call of a user counts while
another call of the same user has counted and not inserted yet, the cap holds. -/

namespace Captivo.SessionCap

open Lib.Dns Lib.Threads
open Captivo.Policy (sessionTtlMs evictionIds)
open Captivo.Suspension (Session SignIn)

/-- How many live sessions the user has, those with these ids apart. -/
def liveBut (t : SessionTable) (userId : Text) (ids : List String) : ℕ :=
  t.sessions.countP fun s => live t.now userId s && s.id ∉ ids

/-- How many live sessions the user has. -/
def liveCount (t : SessionTable) (userId : Text) : ℕ := t.sessions.countP (live t.now userId)

/-- A call that has counted holds the room for one session, once those it is to end are gone. -/
def roomClaims (cap : ℕ) : Claims SessionTable SessionStmt (Text × List String) where
  held
    | .evict userId ids => some (userId, ids)
    | .create signIn => some (signIn.userId, [])
    | _ => none
  Free k t := liveBut t k.1 k.2 < cap
  Conflict k k' := k.1 = k'.1
  symm _ _ h := h.symm

/-- The cap holds for the users who are within it to begin with, and for those for whom a session was created. -/
def Capped (cap : ℕ) (within : Text → Prop) (t : SessionTable) : Prop :=
  ∀ userId, within userId ∨ userId ∈ t.made → liveCount t userId ≤ cap

/-! Statements. -/

section Stmt

variable {t : SessionTable} {userId : Text} {ids : List String}

theorem liveBut_nil (t : SessionTable) (userId : Text) : liveBut t userId [] = liveCount t userId := by
  simp [liveBut, liveCount]

/-- A statement that only ends sessions, or lets time go by. -/
def SessionStmt.Ends (s : SessionStmt) : Prop := ∀ signIn, s ≠ .create signIn

theorem live_wait {now : ℤ} {s : Session} (ms : ℕ) (h : live (now + ms) userId s = true) : live now userId s = true := by
  simp only [live, Bool.and_eq_true, decide_eq_true_eq] at h ⊢
  exact ⟨⟨h.1.1, by omega⟩, h.2⟩

theorem liveBut_ends {s : SessionStmt} (hs : s.Ends) : liveBut (s.apply t) userId ids ≤ liveBut t userId ids := by
  cases s with
  | read => exact le_rfl
  | evict userId' ids' => exact List.filter_sublist.countP_le
  | create signIn => exact absurd rfl (hs signIn)
  | delete sel => exact List.filter_sublist.countP_le
  | wait ms =>
    refine List.countP_mono_left fun s _ h => ?_
    rw [Bool.and_eq_true] at h ⊢
    exact ⟨live_wait ms h.1, h.2⟩

theorem liveCount_ends {s : SessionStmt} (hs : s.Ends) : liveCount (s.apply t) userId ≤ liveCount t userId := by
  rw [← liveBut_nil, ← liveBut_nil]
  exact liveBut_ends hs

theorem made_ends {s : SessionStmt} (hs : s.Ends) : (s.apply t).made = t.made := by
  cases s with
  | create signIn => exact absurd rfl (hs signIn)
  | _ => rfl

theorem liveBut_create (t : SessionTable) (userId : Text) (ids : List String) (signIn : SignIn) :
    liveBut (SessionStmt.apply (.create signIn) t) userId ids ≤ liveBut t userId ids + if signIn.userId = userId then 1 else 0 := by
  rw [liveBut, SessionStmt.apply, List.countP_append, List.countP_singleton]
  refine Nat.add_le_add_left ?_ _
  split_ifs with hlive huser
  · exact le_rfl
  · simp [live, huser] at hlive
  · exact Nat.zero_le _
  · exact le_rfl

theorem liveBut_evict (userId' : Text) : liveBut (SessionStmt.apply (.evict userId' ids) t) userId [] = liveBut t userId ids := by
  rw [liveBut, SessionStmt.apply, List.countP_filter]
  simp [liveBut]

theorem mem_made_apply (s : SessionStmt) (h : userId ∈ t.made) : userId ∈ (s.apply t).made := by
  cases s with
  | create signIn => exact List.mem_append_left _ h
  | _ => exact h

end Stmt

/-! The count. -/

/-- Without its first elements, and whatever else has their ids, little is left of a list. -/
theorem countP_notMem_take (room : ℕ) (sessions : List Session) (n : ℕ) (h : sessions.length ≤ n + room) :
    sessions.countP (fun s => s.id ∉ (sessions.map (·.id)).take n) ≤ room := by
  set p : Session → Bool := fun s => s.id ∉ (sessions.map (·.id)).take n
  have htake : (sessions.take n).countP p = 0 := by
    refine List.countP_eq_zero.2 fun s hs => ?_
    have hmem : s.id ∈ (sessions.map (·.id)).take n := by
      rw [← List.map_take]
      exact List.mem_map_of_mem hs
    simp [p, hmem]
  calc sessions.countP p = (sessions.take n ++ sessions.drop n).countP p := by rw [List.take_append_drop]
    _ = (sessions.drop n).countP p := by rw [List.countP_append, htake, Nat.zero_add]
    _ ≤ (sessions.drop n).length := List.countP_le_length
    _ ≤ room := by
      rw [List.length_drop]
      omega

theorem room_of_count {cap : ℕ} (hcap : 0 < cap) (t : SessionTable) (userId : Text) :
    liveBut t userId (evictionIds ((activeSessions t userId).map (·.id)) (some cap)) < cap := by
  have hperm : (activeSessions t userId).Perm (t.sessions.filter (live t.now userId)) := List.perm_insertionSort _ _
  have hpos : ¬ (cap : ℤ) ≤ 0 := by omega
  simp only [evictionIds, if_neg hpos, List.length_map]
  have hcount := countP_notMem_take (cap - 1) (activeSessions t userId)
    ((activeSessions t userId).length - ((cap : ℤ) - 1)).toNat (by omega)
  rw [hperm.countP_eq, List.countP_filter] at hcount
  refine lt_of_le_of_lt (le_of_eq_of_le ?_ hcount) (by omega)
  rw [liveBut]
  exact List.countP_congr fun s _ => by rw [Bool.and_comm]

/-! Calls. -/

section Calls

variable {cap : ℕ} {within : Text → Prop}

/-- The thread holds nothing yet, and counts before it inserts. -/
def Calm (cap : ℕ) (within : Text → Prop) (thread : SessionThread) : Prop :=
  thread.claim (roomClaims cap).held = none ∧ (roomClaims cap).Checks (Capped cap within) thread

theorem capped_ends {s : SessionStmt} (hs : s.Ends) {t : SessionTable} (h : Capped cap within t) : Capped cap within (s.apply t) := by
  intro userId huser
  rw [made_ends hs] at huser
  exact (liveCount_ends hs).trans (h userId huser)

theorem calm_finish {s : SessionStmt} (hs : s.Ends) (hheld : (roomClaims cap).held s = none) : Calm cap within (finish s) := by
  refine ⟨hheld, fun t => ⟨fun hinv _ => capped_ends hs hinv, fun _ _ k hk => ?_, fun _ k hfree _ => ?_⟩, fun _ => trivial⟩
  · cases hk
  · exact lt_of_le_of_lt (liveBut_ends hs) hfree

theorem checks_create (signIn : SignIn) : (roomClaims cap).Checks (Capped cap within) (finish (.create signIn)) := by
  refine ⟨fun t => ⟨?_, fun _ _ k hk => ?_, ?_⟩, fun _ => trivial⟩
  · intro hinv hfree userId huser
    have hroom : liveCount t signIn.userId < cap := by
      rw [← liveBut_nil]
      exact hfree _ rfl
    have hadd := liveBut_create t userId [] signIn
    rw [liveBut_nil, liveBut_nil] at hadd
    by_cases hself : signIn.userId = userId
    · rw [if_pos hself] at hadd
      rw [hself] at hroom
      omega
    · rw [if_neg hself] at hadd
      have hold : within userId ∨ userId ∈ t.made := by
        refine huser.imp id fun hmem => ?_
        rcases List.mem_append.1 hmem with h | h
        · exact h
        · exact absurd (List.mem_singleton.1 h).symm hself
      exact hadd.trans (hinv userId hold)
  · cases hk
  · intro _ k hfree hconflict
    have hself : signIn.userId ≠ k.1 := fun h => hconflict _ rfl h.symm
    have hadd := liveBut_create t k.1 k.2 signIn
    rw [if_neg hself] at hadd
    exact lt_of_le_of_lt hadd hfree

theorem checks_evict (signIn : SignIn) (ids : List String) :
    (roomClaims cap).Checks (Capped cap within) (exec (.evict signIn.userId ids) fun _ => finish (.create signIn)) := by
  have hends : (SessionStmt.evict signIn.userId ids).Ends := nofun
  refine ⟨fun t => ⟨fun hinv _ => capped_ends hends hinv, ?_, fun _ k hfree _ => ?_⟩, fun _ => checks_create signIn⟩
  · intro _ hfree k hk
    obtain rfl : (signIn.userId, []) = k := Option.some.inj hk
    change liveBut _ _ _ < cap
    rw [liveBut_evict]
    exact hfree _ rfl
  · exact lt_of_le_of_lt (liveBut_ends hends) hfree

theorem calm_createSession (hcap : 0 < cap) {signIn : SignIn} (hpolicy : signIn.policy.maxConcurrentPerUser = some (cap : ℤ)) :
    Calm cap within (createSession signIn) := by
  have hany : signIn.policy.maxConcurrentPerUser.any (0 < ·) = true := by simp [hpolicy, hcap]
  rw [createSession, if_pos hany]
  refine ⟨rfl, fun t => ⟨fun hinv _ => hinv, ?_, fun _ k hfree _ => hfree⟩, fun t => ?_⟩
  · intro _ _ k hk
    have hroom := room_of_count hcap t signIn.userId
    dsimp only at hk
    rw [hpolicy] at hk
    split_ifs at hk with hnone
    · obtain rfl : (signIn.userId, []) = k := Option.some.inj hk
      rw [hnone] at hroom
      exact hroom
    · obtain rfl := Option.some.inj hk
      exact hroom
  · dsimp only
    split_ifs
    · exact checks_create signIn
    · exact checks_evict signIn _

end Calls

/-! Every call ends with its session. -/

theorem all_made {userId : Text} (request : SessionRequest) :
    request.thread.All fun _ f => ∀ t : SessionTable, userId ∈ t.made → userId ∈ (f t).made := by
  cases request with
  | createSession signIn =>
    simp only [SessionRequest.thread, createSession]
    split_ifs
    · refine ⟨fun _ h => h, fun t => ?_⟩
      dsimp only
      split_ifs
      · exact ⟨fun _ h => mem_made_apply _ h, fun _ => trivial⟩
      · exact ⟨fun _ h => h, fun _ => ⟨fun _ h => mem_made_apply _ h, fun _ => trivial⟩⟩
    · exact ⟨fun _ h => mem_made_apply _ h, fun _ => trivial⟩
  | delete sel => exact ⟨fun _ h => h, fun _ => trivial⟩
  | wait ms => exact ⟨fun _ h => h, fun _ => trivial⟩

theorem owes_createSession (signIn : SignIn) : (createSession signIn).Owes fun t => signIn.userId ∈ t.made := by
  have hcreate : (finish (.create signIn)).Owes fun t : SessionTable => signIn.userId ∈ t.made :=
    .inl fun t => List.mem_append_right _ (List.mem_singleton_self _)
  unfold createSession
  split_ifs
  · refine .inr fun t => ?_
    dsimp only
    split_ifs
    · exact hcreate
    · exact .inr fun _ => hcreate
  · exact hcreate

/-- A sign-in of one user under a cap of one session. -/
def oneSession (sessionId : String) : SessionRequest :=
  .createSession ⟨sessionId, "u".toList, sessionId.toList, ⟨none, none, some 1, false⟩, 12⟩

/-- Two sign-ins, in some order of their statements. -/
def twoSignIns (schedule : List ℕ) : Pool SessionTable SessionStmt := (sessionPool [] 0 [oneSession "a", oneSession "b"]).run schedule

theorem twoSignIns_rest {schedule : List ℕ} (h : ∀ i ∈ schedule, i < 2) (n : ℕ) : (twoSignIns schedule).threads (n + 2) = .done := by
  rw [twoSignIns, Pool.run_threads_of_notMem fun hmem => absurd (h _ hmem) (by omega)]
  rfl

theorem twoSignIns_done {schedule : List ℕ} (h : ∀ i ∈ schedule, i < 2) (h0 : ((twoSignIns schedule).threads 0).isDone = true)
    (h1 : ((twoSignIns schedule).threads 1).isDone = true) (i : ℕ) : (twoSignIns schedule).threads i = .done := by
  match i with
  | 0 => exact Thread.eq_done h0
  | 1 => exact Thread.eq_done h1
  | n + 2 => exact twoSignIns_rest h n

end Captivo.SessionCap
