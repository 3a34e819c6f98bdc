import CaptivoAccess.Lib.Quota
import CaptivoAccess.Lib.Run

/-! Calls under many keys, each key with windows of its own. A limiter that forgets windows
that are over answers as one that keeps them all, and between two openings of a window no
more calls are let through than the limit, so that an interval as long as a window has
twice the limit at most. -/

namespace Lib.Quota

open Lib.Run

structure Call (κ : Type) where
  time : ℤ
  key : κ

/-- A call, whether it was let through and whether a window opened with it. -/
structure Visit (κ : Type) extends Call κ where
  admitted : Bool
  opens : Bool

abbrev Windows (κ : Type) := κ → Option Window

def opening (now : ℤ) (w : Option Window) : Bool := w.all (·.over now)

/-- Calls come in the order of their times. -/
def InOrder {κ : Type} (calls : List (Call κ)) : Prop := calls.Pairwise fun c c' => c.time ≤ c'.time

section Runs

variable {κ : Type} [DecidableEq κ] (limit : ℕ) (length : ℤ)

def visit (m : Windows κ) (c : Call κ) : Visit κ :=
  ⟨c, (admission limit length c.time (m c.key)).2, opening c.time (m c.key)⟩

def leave (m : Windows κ) (c : Call κ) : Windows κ :=
  Function.update m c.key (some (admission limit length c.time (m c.key)).1)

/-- The answers of a limiter that never forgets a window. -/
def visits : Windows κ → List (Call κ) → List (Visit κ)
  | _, [] => []
  | m, c :: calls => visit limit length m c :: visits (leave limit length m c) calls

end Runs

/-! Forgetting. -/

/-- Of windows that are over some are gone. -/
def Forgets {κ : Type} (now : ℤ) (m m' : Windows κ) : Prop := ∀ k, m' k = m k ∨ m' k = none ∧ opening now (m k) = true

section Forget

variable {κ : Type} {limit : ℕ} {length now : ℤ} {m m' m'' : Windows κ}

theorem admission_opening {w : Option Window} (h : opening now w = true) : admission limit length now w = (⟨1, now + length⟩, true) := by
  cases w with
  | none => rfl
  | some v => exact if_pos h

theorem opening_later {later : ℤ} (hle : now ≤ later) {w : Option Window} (h : opening now w = true) : opening later w = true := by
  cases w with
  | none => rfl
  | some v => exact decide_eq_true ((of_decide_eq_true h : v.reset < now).trans_le hle)

theorem Forgets.refl (now : ℤ) (m : Windows κ) : Forgets now m m := fun _ => Or.inl rfl

theorem forgets_filter (now : ℤ) (m : Windows κ) : Forgets now m fun k => (m k).filter fun w => !w.over now := by
  intro k
  cases hk : m k with
  | none => exact Or.inl (by simp [hk])
  | some w =>
    by_cases hover : w.over now = true
    · exact Or.inr ⟨by simp [hk, Option.filter, hover], hover⟩
    · exact Or.inl (by simp [hk, Option.filter, hover])

theorem Forgets.trans {later : ℤ} (h : Forgets now m m') (hle : now ≤ later) (h' : Forgets later m' m'') : Forgets later m m'' := by
  intro k
  obtain hk | ⟨hnone, hover⟩ := h k
  · rw [← hk]
    exact h' k
  · refine Or.inr ⟨?_, opening_later hle hover⟩
    obtain hk' | ⟨hnone', -⟩ := h' k
    · rw [hk', hnone]
    · exact hnone'

theorem Forgets.admission_eq (h : Forgets now m m') (k : κ) : admission limit length now (m' k) = admission limit length now (m k) := by
  obtain hk | ⟨hnone, hover⟩ := h k
  · rw [hk]
  · rw [hnone, admission_opening hover]
    rfl

theorem Forgets.opening_eq (h : Forgets now m m') (k : κ) : opening now (m' k) = opening now (m k) := by
  obtain hk | ⟨hnone, hover⟩ := h k
  · rw [hk]
  · rw [hnone, hover]
    rfl

variable {c : Call κ}

theorem Forgets.visit_eq (h : Forgets c.time m m') : visit limit length m' c = visit limit length m c := by
  rw [visit, visit, h.admission_eq, h.opening_eq]

variable [DecidableEq κ]

theorem Forgets.leave (h : Forgets c.time m m') : Forgets c.time (leave limit length m c) (leave limit length m' c) := by
  intro k
  rw [Quota.leave, Quota.leave, h.admission_eq]
  by_cases hk : k = c.key
  · rw [hk]
    exact Or.inl (by rw [Function.update_self, Function.update_self])
  · rw [Function.update_of_ne hk, Function.update_of_ne hk]
    exact h k

/-- A limiter that forgets some windows that are over before each call, and then does what it should, gives all the answers of one
that forgets none. -/
theorem outputs_eq_visits {σ : Type} {view : σ → Windows κ} {act : σ → Call κ → σ × List (Visit κ)}
    (hact : ∀ s c, ∃ m', Forgets c.time (view s) m' ∧ view (act s c).1 = Quota.leave limit length m' c ∧
      (act s c).2 = [visit limit length m' c])
    {s : σ} (hs : Forgets now m (view s)) {calls : List (Call κ)} (hstart : ∀ c ∈ calls, now ≤ c.time) (horder : InOrder calls) :
    (outputs act s calls).2 = visits limit length m calls := by
  induction calls generalizing now m s with
  | nil => rfl
  | cons c calls ih =>
    obtain ⟨hlater, horder⟩ := List.pairwise_cons.1 horder
    obtain ⟨m', hforget, hview, hout⟩ := hact s c
    have hall : Forgets c.time m m' := hs.trans (hstart c List.mem_cons_self) hforget
    have hrest : (outputs act (act s c).1 calls).2 = visits limit length (Quota.leave limit length m c) calls :=
      ih (hview ▸ hall.leave) hlater horder
    rw [outputs, hrest, hout, hall.visit_eq]
    rfl

end Forget

/-! Bounds. -/

/-- The number of calls under a key that were let through from one time to another. -/
def admittedIn {κ : Type} [DecidableEq κ] (k : κ) (a b : ℤ) (vs : List (Visit κ)) : ℕ :=
  vs.countP fun v => v.key = k && v.admitted && (a ≤ v.time && v.time ≤ b)

section Bounds

variable {κ : Type} [DecidableEq κ] {limit : ℕ} {length : ℤ} {m : Windows κ} {k : κ} {c : Call κ} {calls : List (Call κ)}

theorem leave_ne (h : c.key ≠ k) : leave limit length m c k = m k := Function.update_of_ne h.symm _ _

theorem leave_eq (h : c.key = k) : leave limit length m c k = some (admission limit length c.time (m k)).1 := by
  rw [← h, leave, Function.update_self]

theorem visit_opening (limit : ℕ) (length : ℤ) (hk : c.key = k) (h : opening c.time (m k) = true) :
    leave limit length m c k = some ⟨1, c.time + length⟩ ∧ (visit limit length m c).admitted = true := by
  rw [leave_eq hk, visit, hk, admission_opening h]
  exact ⟨rfl, rfl⟩

/-- In a window that is not over a call is counted if it is let through, and the window stays. -/
theorem visit_inside (length : ℤ) {v : Window} (hv : m k = some v) (hcount : v.count ≤ limit) (hk : c.key = k) (h : c.time ≤ v.reset) :
    ∃ v', leave limit length m c k = some v' ∧ v'.reset = v.reset ∧ v'.count ≤ limit ∧
      v'.count = v.count + (visit limit length m c).admitted.toNat := by
  have hover : ¬ v.over c.time = true := fun hover => not_lt.2 h (of_decide_eq_true hover)
  rw [leave_eq hk, visit, hk, hv, admission, if_neg hover]
  split_ifs with hfull
  · exact ⟨v, rfl, rfl, hcount, rfl⟩
  · exact ⟨_, rfl, rfl, Nat.lt_of_not_le hfull, rfl⟩

omit [DecidableEq κ] in
theorem countP_visit_le {p : Visit κ → Bool} (hp : ∀ u, p u = true → u.admitted = true) (v : Visit κ) (vs : List (Visit κ)) :
    (v :: vs).countP p ≤ vs.countP p + v.admitted.toNat := by
  rw [List.countP_cons]
  split_ifs with hv
  · rw [hp v hv]
    exact le_rfl
  · exact Nat.le_add_right _ _

/-- From the opening of one window to that of the next no more calls are let through than the limit. -/
theorem admitted_in_window {v : Window} (hv : m k = some v) (hcount : v.count ≤ limit) {mid post : List (Visit κ)}
    (h : visits limit length m calls = mid ++ post) (hmid : ∀ u ∈ mid, u.key = k → u.opens = false) :
    v.count + mid.countP (fun u => u.key = k && u.admitted) ≤ limit := by
  induction mid generalizing m v calls with
  | nil => exact hcount
  | cons u mid ih =>
    cases calls with
    | nil => cases h
    | cons c calls =>
      obtain ⟨rfl, hrest⟩ := List.cons.inj h
      obtain ⟨hu, hmid⟩ := List.forall_mem_cons.1 hmid
      by_cases hk : c.key = k
      · have hopens : opening c.time (m c.key) = false := hu hk
        rw [hk, hv] at hopens
        have hinside : c.time ≤ v.reset := not_lt.1 (of_decide_eq_false hopens)
        obtain ⟨v', hv', -, hcount', hadd⟩ := visit_inside length hv hcount hk hinside
        have hrun := ih hv' hcount' hrest hmid
        have hcall := countP_visit_le (p := fun u => u.key = k && u.admitted) (fun u hu => (Bool.and_eq_true_iff.1 hu).2)
          (visit limit length m c) mid
        omega
      · rw [List.countP_cons_of_neg (by simp [visit, hk])]
        exact ih ((leave_ne hk).trans hv) hcount hrest hmid

variable {a b : ℤ}

theorem admittedIn_cons_le (v : Visit κ) (vs : List (Visit κ)) : admittedIn k a b (v :: vs) ≤ admittedIn k a b vs + v.admitted.toNat :=
  countP_visit_le (fun _ hu => (Bool.and_eq_true_iff.1 (Bool.and_eq_true_iff.1 hu).1).2) v vs

theorem admittedIn_cons_of_ne {v : Visit κ} (hk : v.key ≠ k) (vs : List (Visit κ)) : admittedIn k a b (v :: vs) = admittedIn k a b vs :=
  List.countP_cons_of_neg (by simp [hk])

theorem admittedIn_cons_of_before {v : Visit κ} (hv : v.time < a) (vs : List (Visit κ)) : admittedIn k a b (v :: vs) = admittedIn k a b vs :=
  List.countP_cons_of_neg (by simp [not_le.2 hv])

theorem admittedIn_after (h : ∀ c ∈ calls, b < c.time) : admittedIn k a b (visits limit length m calls) = 0 := by
  induction calls generalizing m with
  | nil => rfl
  | cons c calls ih =>
    obtain ⟨hc, hcalls⟩ := List.forall_mem_cons.1 h
    rw [visits, admittedIn, List.countP_cons_of_neg (by simp [visit, not_le.2 hc])]
    exact ih hcalls

/-- A window that lasts to the end of the interval leaves what it has room for. -/
theorem admittedIn_of_one {v : Window} (hv : m k = some v) (hcount : v.count ≤ limit) (hlast : b ≤ v.reset) (horder : InOrder calls) :
    v.count + admittedIn k a b (visits limit length m calls) ≤ limit := by
  induction calls generalizing m v with
  | nil => exact hcount
  | cons c calls ih =>
    obtain ⟨hlater, horder'⟩ := List.pairwise_cons.1 horder
    by_cases hc : b < c.time
    · rw [admittedIn_after (List.forall_mem_cons.2 ⟨hc, fun c' hc' => hc.trans_le (hlater c' hc')⟩)]
      exact hcount
    · by_cases hk : c.key = k
      · obtain ⟨v', hv', hreset, hcount', hadd⟩ := visit_inside length hv hcount hk ((not_lt.1 hc).trans hlast)
        have hrun := ih hv' hcount' (hlast.trans_eq hreset.symm) horder'
        have hcall := admittedIn_cons_le (k := k) (a := a) (b := b) (visit limit length m c) (visits limit length (leave limit length m c) calls)
        rw [visits]
        omega
      · rw [visits, admittedIn_cons_of_ne hk]
        exact ih ((leave_ne hk).trans hv) hcount hlast horder'

theorem admittedIn_opening (hlimit : 1 ≤ limit) (hk : c.key = k) (hopening : opening c.time (m k) = true) (hlast : b ≤ c.time + length)
    (horder : InOrder calls) : admittedIn k a b (visits limit length m (c :: calls)) ≤ limit := by
  obtain ⟨hleave, hadmitted⟩ := visit_opening limit length hk hopening
  have hrun : 1 + admittedIn k a b (visits limit length (leave limit length m c) calls) ≤ limit :=
    admittedIn_of_one hleave hlimit hlast horder
  have hcall := admittedIn_cons_le (k := k) (a := a) (b := b) (visit limit length m c) (visits limit length (leave limit length m c) calls)
  rw [hadmitted] at hcall
  rw [visits]
  exact hcall.trans ((Nat.add_comm _ _).trans_le hrun)

theorem admittedIn_of_two (hlimit : 1 ≤ limit) {v : Window} (hv : m k = some v) (hcount : v.count ≤ limit) (hlast : b ≤ v.reset + length)
    (horder : InOrder calls) : v.count + admittedIn k a b (visits limit length m calls) ≤ 2 * limit := by
  induction calls generalizing m v with
  | nil => exact hcount.trans (Nat.le_mul_of_pos_left _ Nat.two_pos)
  | cons c calls ih =>
    obtain ⟨-, horder'⟩ := List.pairwise_cons.1 horder
    by_cases hk : c.key = k
    · by_cases hinside : c.time ≤ v.reset
      · obtain ⟨v', hv', hreset, hcount', hadd⟩ := visit_inside length hv hcount hk hinside
        have hrun := ih hv' hcount' (by rw [hreset]; exact hlast) horder'
        have hcall := admittedIn_cons_le (k := k) (a := a) (b := b) (visit limit length m c) (visits limit length (leave limit length m c) calls)
        rw [visits]
        omega
      · have hopening : opening c.time (m k) = true := by
          rw [hv]
          exact decide_eq_true (not_le.1 hinside)
        have hrun : admittedIn k a b (visits limit length m (c :: calls)) ≤ limit :=
          admittedIn_opening hlimit hk hopening (by omega) horder'
        omega
    · rw [visits, admittedIn_cons_of_ne hk]
      exact ih ((leave_ne hk).trans hv) hcount hlast horder'

theorem admittedIn_closed (hlimit : 1 ≤ limit) (hm : ∀ v, m k = some v → v.reset < a) (hstart : ∀ c ∈ calls, a ≤ c.time)
    (horder : InOrder calls) : admittedIn k a (a + length) (visits limit length m calls) ≤ limit := by
  induction calls generalizing m with
  | nil => exact Nat.zero_le _
  | cons c calls ih =>
    obtain ⟨-, horder'⟩ := List.pairwise_cons.1 horder
    obtain ⟨hc, hstart⟩ := List.forall_mem_cons.1 hstart
    by_cases hk : c.key = k
    · have hopening : opening c.time (m k) = true := by
        cases hv : m k with
        | none => rfl
        | some v => exact decide_eq_true ((hm v hv).trans_le hc)
      exact admittedIn_opening hlimit hk hopening (by omega) horder'
    · rw [visits, admittedIn_cons_of_ne hk]
      exact ih (fun v hv => hm v ((leave_ne hk).symm.trans hv)) hstart horder'

/-- No window holds more calls than the limit. -/
def Bounded (limit : ℕ) (m : Windows κ) : Prop := ∀ k v, m k = some v → v.count ≤ limit

theorem Bounded.leave (hlimit : 1 ≤ limit) (hm : Bounded limit m) (length : ℤ) (c : Call κ) : Bounded limit (leave limit length m c) := by
  intro k v hv
  by_cases hk : c.key = k
  · by_cases hopening : opening c.time (m k) = true
    · obtain ⟨hleave, -⟩ := visit_opening limit length hk hopening
      cases hleave.symm.trans hv
      exact hlimit
    · cases hw : m k with
      | none => exact absurd (by rw [hw]; rfl) hopening
      | some w =>
        rw [hw] at hopening
        have hinside : c.time ≤ w.reset := not_lt.1 fun hlt => hopening (decide_eq_true hlt)
        obtain ⟨v', hv', -, hcount, -⟩ := visit_inside length hw (hm k w hw) hk hinside
        cases hv'.symm.trans hv
        exact hcount
  · exact hm k v ((leave_ne hk).symm.trans hv)

/-- An interval as long as a window has at most twice the limit of calls that are let through. -/
theorem admittedIn_le (hlimit : 1 ≤ limit) (hm : Bounded limit m) (horder : InOrder calls) :
    admittedIn k a (a + length) (visits limit length m calls) ≤ 2 * limit := by
  induction calls generalizing m with
  | nil => exact Nat.zero_le _
  | cons c calls ih =>
    obtain ⟨hlater, horder'⟩ := List.pairwise_cons.1 horder
    by_cases hc : c.time < a
    · rw [visits, admittedIn_cons_of_before hc]
      exact ih (hm.leave hlimit length c) horder'
    · have hstart : ∀ c' ∈ c :: calls, a ≤ c'.time :=
        List.forall_mem_cons.2 ⟨not_lt.1 hc, fun c' hc' => (not_lt.1 hc).trans (hlater c' hc')⟩
      by_cases hlast : ∃ v, m k = some v ∧ a ≤ v.reset
      · obtain ⟨v, hv, hle⟩ := hlast
        have htwo : v.count + admittedIn k a (a + length) (visits limit length m (c :: calls)) ≤ 2 * limit :=
          admittedIn_of_two hlimit hv (hm k v hv) (by omega) horder
        omega
      · have hover : ∀ v, m k = some v → v.reset < a := fun v hv => not_le.1 fun hle => hlast ⟨v, hv, hle⟩
        have hone : admittedIn k a (a + length) (visits limit length m (c :: calls)) ≤ limit :=
          admittedIn_closed hlimit hover hstart horder
        omega

/-- A window that opens, with all that comes before the next one under its key, lets no more calls through than the limit. -/
theorem admitted_since_opening (hlimit : 1 ≤ limit) {pre mid post : List (Visit κ)} {v : Visit κ}
    (h : visits limit length m calls = pre ++ v :: (mid ++ post)) (hopens : v.opens = true)
    (hmid : ∀ u ∈ mid, u.key = v.key → u.opens = false) :
    (v :: mid).countP (fun u => u.key = v.key && u.admitted) ≤ limit := by
  induction pre generalizing m calls with
  | cons u pre ih =>
    cases calls with
    | nil => cases h
    | cons c calls => exact ih (List.cons.inj h).2
  | nil =>
    cases calls with
    | nil => cases h
    | cons c calls =>
      obtain ⟨rfl, hrest⟩ := List.cons.inj h
      obtain ⟨hleave, hadmitted⟩ := visit_opening limit length rfl hopens
      have hrun := admitted_in_window hleave hlimit hrest hmid
      have hcall := countP_visit_le (p := fun u => u.key = c.key && u.admitted) (fun u hu => (Bool.and_eq_true_iff.1 hu).2)
        (visit limit length m c) mid
      rw [hadmitted] at hcall
      exact hcall.trans ((Nat.add_comm _ _).trans_le hrun)

end Bounds

/-! Another unit of time. -/

def Window.scale (u : ℤ) (w : Window) : Window := ⟨w.count, u * w.reset⟩

def Call.scale {κ : Type} (u : ℤ) (c : Call κ) : Call κ := ⟨u * c.time, c.key⟩

section Scale

variable {κ : Type} [DecidableEq κ] {limit : ℕ} {u : ℤ}

theorem over_scale (hu : 0 < u) (now : ℤ) (w : Window) : (w.scale u).over (u * now) = w.over now := by
  simp [Window.over, Window.scale, hu]

theorem admission_scale (hu : 0 < u) (length now : ℤ) (w : Option Window) :
    admission limit (u * length) (u * now) (w.map (Window.scale u)) =
      ((admission limit length now w).1.scale u, (admission limit length now w).2) := by
  cases w with
  | none => simp [admission, Window.scale, mul_add]
  | some v =>
    rw [Option.map_some, admission, admission, over_scale hu]
    by_cases hover : v.over now = true
    · rw [if_pos hover, if_pos hover, Window.scale, mul_add]
    · rw [if_neg hover, if_neg hover]
      by_cases hfull : limit ≤ v.count
      · rw [if_pos hfull, if_pos (show limit ≤ (v.scale u).count from hfull)]
      · rw [if_neg hfull, if_neg (show ¬ limit ≤ (v.scale u).count from hfull)]
        rfl

theorem admitted_scale (hu : 0 < u) (length : ℤ) (m : Windows κ) (calls : List (Call κ)) :
    (visits limit (u * length) (fun k => (m k).map (Window.scale u)) (calls.map (Call.scale u))).map (·.admitted) =
      (visits limit length m calls).map (·.admitted) := by
  induction calls generalizing m with
  | nil => rfl
  | cons c calls ih =>
    have hleave : leave limit (u * length) (fun k => (m k).map (Window.scale u)) (c.scale u) =
        fun k => (leave limit length m c k).map (Window.scale u) := by
      funext k
      by_cases hk : c.key = k
      · rw [leave_eq (c := c.scale u) hk, leave_eq hk]
        exact congrArg some (congrArg Prod.fst (admission_scale hu length c.time (m k)))
      · rw [leave_ne (c := c.scale u) hk, leave_ne hk]
    have hadmitted : (visit limit (u * length) (fun k => (m k).map (Window.scale u)) (c.scale u)).admitted =
        (visit limit length m c).admitted := by
      simp only [visit, Call.scale, admission_scale hu]
    rw [List.map_cons, visits, visits, List.map_cons, List.map_cons, hleave, ih, hadmitted]

end Scale

end Lib.Quota
