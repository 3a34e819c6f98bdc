import CaptivoAccess.Lib.QuotaRun
import CaptivoAccess.Proofs.RateLimit
import CaptivoAccess.Spec.ProxyLimiter

/-! The two limiters over whole sequences of calls: neither is told apart from one that
keeps every window, and so neither from the other. -/

namespace Captivo.ProxyLimiter

open Lib.Dns Lib.Quota Lib.Run

variable (limit : ℕ) (window : ℤ)

/-- A call of the data plane's limiter, with what it says of the call. -/
def act (r : RateLimiter) (c : Call Text) : RateLimiter × List (Visit Text) :=
  let allowed := allow c.time c.key limit window r
  (allowed.1, [⟨c, allowed.2, opening c.time ((sweep c.time r).m c.key)⟩])

def log (calls : List (Call Text)) : List (Visit Text) := (outputs (act limit window) newRateLimiter calls).2

theorem allow_eq (now : ℤ) (key : Text) (r : RateLimiter) :
    (allow now key limit window r).1.m =
        Function.update (sweep now r).m key (some (admission limit window now ((sweep now r).m key)).1) ∧
      (allow now key limit window r).2 = (admission limit window now ((sweep now r).m key)).2 := by
  simp only [allow]
  generalize sweep now r = r
  cases he : r.m key with
  | none => exact ⟨rfl, rfl⟩
  | some e =>
    by_cases hover : e.over now = true
    · simp [admission, hover]
    · by_cases hfull : limit ≤ e.count
      · have hsame : Function.update r.m key (some e) = r.m := by rw [← he, Function.update_eq_self]
        simp [admission, hover, hfull, hsame]
      · simp [admission, hover, hfull]

theorem forgets_sweep (now : ℤ) (r : RateLimiter) : Forgets now r.m (sweep now r).m := by
  rw [sweep]
  split_ifs
  · exact Forgets.refl now r.m
  · exact forgets_filter now r.m

theorem log_eq_visits {calls : List (Call Text)} (horder : InOrder calls) :
    log limit window calls = visits limit window (fun _ => none) calls := by
  have hact : ∀ (r : RateLimiter) (c : Call Text), ∃ m', Forgets c.time r.m m' ∧ (act limit window r c).1.m = leave limit window m' c ∧
      (act limit window r c).2 = [visit limit window m' c] := by
    intro r c
    obtain ⟨hm, hallowed⟩ := allow_eq limit window c.time c.key r
    refine ⟨_, forgets_sweep c.time r, hm, ?_⟩
    rw [act, hallowed, visit]
  cases calls with
  | nil => rfl
  | cons c calls =>
    obtain ⟨hlater, -⟩ := List.pairwise_cons.1 horder
    exact outputs_eq_visits hact (Forgets.refl c.time _) (List.forall_mem_cons.2 ⟨le_rfl, hlater⟩) horder

/-! The manager's limiter. Its times are in milliseconds. -/

/-- A call of the manager's limiter, with what it says of the call. -/
def check (l : RateLimit.Limiter) (c : Call Text) : RateLimit.Limiter × List (Visit Text) :=
  let checked := RateLimit.checkRateLimit c.time c.key limit window l
  (checked.1, [⟨c, checked.2, opening c.time ((RateLimit.sweep c.time l).hits c.key)⟩])

def checkLog (calls : List (Call Text)) : List (Visit Text) := (outputs (check limit window) ⟨fun _ => none, 0⟩ calls).2

theorem checkLog_eq_visits {calls : List (Call Text)} (horder : InOrder calls) :
    checkLog limit window calls = visits limit window (fun _ => none) calls := by
  have hcheck : ∀ (l : RateLimit.Limiter) (c : Call Text), ∃ m', Forgets c.time l.hits m' ∧
      (check limit window l c).1.hits = leave limit window m' c ∧ (check limit window l c).2 = [visit limit window m' c] := by
    intro l c
    obtain ⟨hm, hchecked⟩ := RateLimit.checkRateLimit_eq c.time c.key limit window l
    refine ⟨_, ?_, hm, ?_⟩
    · rw [RateLimit.sweep]
      split_ifs
      · exact Forgets.refl c.time l.hits
      · exact forgets_filter c.time l.hits
    · rw [check, hchecked, visit]
  cases calls with
  | nil => rfl
  | cons c calls =>
    obtain ⟨hlater, -⟩ := List.pairwise_cons.1 horder
    exact outputs_eq_visits hcheck (Forgets.refl c.time _) (List.forall_mem_cons.2 ⟨le_rfl, hlater⟩) horder

/-- For every sequence of calls in the order of their times: the limiter answers as one that keeps every window; from the opening of
a window to the next one under its key it lets the limit of calls through at most, and in any interval as long as a window twice that;
and the manager's limiter, asked at the same times, gives the same answers. -/
theorem limiters_agree (hlimit : 1 ≤ limit) (calls : List (Call Text)) (horder : InOrder calls) :
    log limit window calls = visits limit window (fun _ => none) calls ∧
      (∀ pre v mid post, log limit window calls = pre ++ v :: (mid ++ post) → v.opens = true →
        (∀ u ∈ mid, u.key = v.key → u.opens = false) → (v :: mid).countP (fun u => u.key = v.key && u.admitted) ≤ limit) ∧
      (∀ key t, admittedIn key t (t + window) (log limit window calls) ≤ 2 * limit) ∧
      (checkLog limit window calls).map (·.admitted) =
        (log limit (1000000 * window) (calls.map (Call.scale 1000000))).map (·.admitted) := by
  have hscaled : InOrder (calls.map (Call.scale 1000000)) :=
    List.pairwise_map.2 (horder.imp fun hle => mul_le_mul_of_nonneg_left hle (by decide))
  have hlog := log_eq_visits limit window horder
  refine ⟨hlog, ?_, ?_, ?_⟩
  · intro pre v mid post hsplit hopens hmid
    exact admitted_since_opening hlimit (hlog.symm.trans hsplit) hopens hmid
  · intro key t
    rw [hlog]
    exact admittedIn_le hlimit (fun k v hv => absurd hv (by simp)) horder
  · rw [checkLog_eq_visits limit window horder, log_eq_visits limit _ hscaled]
    exact (admitted_scale (by decide) window _ calls).symm

/-- Three calls in one window of a minute, and one after it. -/
theorem limiters_agree_minute :
    let calls : List (Call Text) := [⟨0, ['k']⟩, ⟨1, ['k']⟩, ⟨60, ['k']⟩, ⟨61, ['k']⟩]
    log 2 60 calls = visits 2 60 (fun _ => none) calls ∧
      (visits 2 60 (fun _ => none) calls).map (·.admitted) = [true, true, false, true] ∧
      (checkLog 2 60 calls).map (·.admitted) = (log 2 (1000000 * 60) (calls.map (Call.scale 1000000))).map (·.admitted) := by
  intro calls
  have hagree := limiters_agree 2 60 (by decide) calls (by simp [InOrder, calls])
  exact ⟨hagree.1, by decide +kernel, hagree.2.2.2⟩

end Captivo.ProxyLimiter
