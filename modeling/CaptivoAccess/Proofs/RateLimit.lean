import CaptivoAccess.Lib.HttpHead
import CaptivoAccess.Lib.IpText
import CaptivoAccess.Lib.Run
import CaptivoAccess.Spec.RateLimit

/-! Who is counted by the limiter. The front proxy writes the peer into a header of its own
and hands on the one that is looked at first, so that a peer is counted as one where it
does not name another address there itself. -/

namespace Captivo.RateLimit

open Lib.Quota Captivo.RecFetch

/-! Addresses. -/

theorem isNamed_mk (name other value : Text) : isNamed name (other, value) = decide (other.map Char.toLower = name) := rfl

/-- The address that a request names itself. -/
def claimed (headers : Headers) : Option Text :=
  ((headers.get "x-real-ip".toList).map trim).filter (· ≠ [])

/-- The request names no address but that of its peer. -/
def Unforged (peer : Peer) (headers : Headers) : Prop := ∀ ip ∈ claimed headers, ip = peer.text

variable (peer : Peer)

theorem get_realIp (headers : Headers) :
    (reverseProxy peer headers).get "x-real-ip".toList = headers.get "x-real-ip".toList := by
  have hfields : (reverseProxy peer headers).filter (isNamed "x-real-ip".toList) =
      headers.filter (isNamed "x-real-ip".toList) := by
    rw [reverseProxy, List.filter_append, List.filter_filter, List.filter_singleton]
    have hother : isNamed "x-real-ip".toList ("X-Forwarded-For".toList, peer.text) = false := by
      rw [isNamed_mk]
      decide
    rw [hother, Bool.cond_false, List.append_nil]
    refine List.filter_congr fun field _ => ?_
    by_cases hname : isNamed "x-real-ip".toList field = true
    · have hreal := of_decide_eq_true hname
      have hxff : isNamed "x-forwarded-for".toList field = false := by
        rw [isNamed, hreal]
        decide
      rw [hname, hxff]
      rfl
    · rw [Bool.not_eq_true] at hname
      rw [hname, Bool.false_and]
  rw [Headers.get, Headers.get, hfields]

theorem get_forwardedFor (headers : Headers) :
    (reverseProxy peer headers).get "x-forwarded-for".toList = some peer.text := by
  have hfields : (reverseProxy peer headers).filter (isNamed "x-forwarded-for".toList) =
      [("X-Forwarded-For".toList, peer.text)] := by
    rw [reverseProxy, List.filter_append, List.filter_filter]
    have hself : isNamed "x-forwarded-for".toList ("X-Forwarded-For".toList, peer.text) = true := by
      rw [isNamed_mk]
      decide
    rw [List.filter_singleton, hself, Bool.cond_true, List.append_left_eq_self, List.filter_eq_nil_iff]
    simp
  rw [Headers.get, hfields]
  simp

theorem hops_peer : hops peer.text = [peer.text] := by
  have htrim : trim peer.text = peer.text := Lib.HttpHead.trim_eq_self peer.no_space
  simp [hops, List.splitOn_eq_singleton peer.no_comma, htrim, peer.ne_nil]

/-- Behind the proxy a request comes from the address it names, or else from its peer. -/
theorem clientIp_reverseProxy (headers : Headers) :
    clientIp (reverseProxy peer headers) = some ((claimed headers).getD peer.text) := by
  rw [clientIp, get_realIp, get_forwardedFor, claimed]
  cases headers.get "x-real-ip".toList with
  | none => simp [hops_peer]
  | some real =>
    by_cases hblank : trim real = []
    · simp [Option.filter, hblank, hops_peer]
    · simp [Option.filter, hblank]

theorem keyOf_unforged {peer : Peer} {headers : Headers} (h : Unforged peer headers) (route : Route) :
    keyOf (reverseProxy peer headers) route = peer.text ++ ':' :: route.bucket := by
  rw [keyOf, clientIp_reverseProxy, Option.getD_some]
  cases hc : claimed headers with
  | none => rfl
  | some ip => rw [Option.getD_some, h ip hc]

/-! The limiter. -/

theorem checkRateLimit_eq (now : ℤ) (key : Text) (limit : ℕ) (windowMs : ℤ) (l : Limiter) :
    (checkRateLimit now key limit windowMs l).1.hits =
        Function.update (sweep now l).hits key (some (admission limit windowMs now ((sweep now l).hits key)).1) ∧
      (checkRateLimit now key limit windowMs l).2 = (admission limit windowMs now ((sweep now l).hits key)).2 := by
  simp only [checkRateLimit]
  generalize sweep now l = l
  cases he : l.hits key with
  | none => simp [admission]
  | some e =>
    by_cases hover : e.over now = true
    · simp [Option.filter, admission, hover]
    · by_cases hfull : limit ≤ e.count
      · have hsame : Function.update l.hits key (some e) = l.hits := by rw [← he, Function.update_eq_self]
        simp [Option.filter, admission, hover, hfull, hsame]
      · simp [Option.filter, admission, hover, hfull]

theorem held_sweep {limit : ℕ} {windowMs now : ℤ} {times : List ℤ} {l : Limiter} {key : Text}
    (h : Held limit windowMs now times (l.hits key)) : Held limit windowMs now times ((sweep now l).hits key) := by
  rw [sweep]
  split_ifs
  · exact h
  · exact h.forget

/-! Keys. -/

theorem Route.no_colon (route : Route) : ':' ∉ route.bucket := by
  cases route <;> decide

theorem Route.bucket_inj {route route' : Route} (h : route.bucket = route'.bucket) : route = route' := by
  revert h
  cases route <;> cases route' <;> decide

theorem route_of_key {ip ip' : Text} {route route' : Route} (h : ip ++ ':' :: route.bucket = ip' ++ ':' :: route'.bucket) :
    route = route' := by
  have hcut : Lib.IpText.cutLast ':' (ip ++ ':' :: route.bucket) = some (ip, route.bucket) :=
    Lib.IpText.cutLast_append route.no_colon
  rw [h, Lib.IpText.cutLast_append route'.no_colon, Option.some.injEq, Prod.mk.injEq] at hcut
  exact Route.bucket_inj hcut.2.symm

/-! Runs. -/

/-- When requests were admitted under a key. -/
def timesOf (w : World) (key : Text) : List ℤ := (w.log.filter fun s => s.admitted && s.key = key).map Served.time

/-- The window of every key holds what was admitted under it. -/
def Counted (w : World) : Prop :=
  ∀ ip (route : Route), Held route.limit route.windowMs w.now (timesOf w (ip ++ ':' :: route.bucket))
    (w.limiter.hits (ip ++ ':' :: route.bucket))

theorem counted_start (now : ℤ) : Counted (start now) := fun _ _ => held_nil

theorem Route.limit_pos (route : Route) : 0 < route.limit := by
  cases route <;> decide

theorem Route.windowMs_nonneg (route : Route) : 0 ≤ route.windowMs := by
  cases route <;> decide

theorem timesOf_append (w : World) (now : ℤ) (l : Limiter) (s : Served) (key : Text) :
    timesOf ⟨now, l, w.log ++ [s]⟩ key = if s.key = key ∧ s.admitted = true then timesOf w key ++ [s.time] else timesOf w key := by
  rw [timesOf, List.filter_append, List.map_append, ← timesOf]
  split_ifs with hs
  · simp [hs]
  · simp only [List.filter_singleton]
    have hnot : (s.admitted && decide (s.key = key)) = false := by
      rw [Bool.eq_false_iff]
      intro hboth
      rw [Bool.and_eq_true, decide_eq_true_eq] at hboth
      exact hs ⟨hboth.2, hboth.1⟩
    rw [hnot, Bool.cond_false, List.map_nil, List.append_nil]

theorem counted_serve {w : World} (h : Counted w) (r : Request) : Counted (serve w r) := by
  intro ip route
  have hswept := held_sweep ((h ip route).wait (Int.le_add_of_nonneg_right (Int.natCast_nonneg r.wait)))
  obtain ⟨ip', hkey⟩ : ∃ ip', keyOf (reverseProxy r.peer r.headers) r.route = ip' ++ ':' :: r.route.bucket := ⟨_, rfl⟩
  obtain ⟨hhits, hadmitted⟩ := checkRateLimit_eq (w.now + r.wait) (ip' ++ ':' :: r.route.bucket) r.route.limit
    r.route.windowMs w.limiter
  simp only [serve, hkey, timesOf_append, hhits, hadmitted]
  by_cases hsame : ip' ++ ':' :: r.route.bucket = ip ++ ':' :: route.bucket
  · -- the call is one under this key, so that it has the limit of this key
    obtain rfl := route_of_key hsame
    simp only [hsame, true_and, Function.update_self]
    exact hswept.admission r.route.limit_pos r.route.windowMs_nonneg
  · simp only [hsame, false_and, if_false, Function.update_of_ne (Ne.symm hsame)]
    exact hswept

theorem counted_run {w : World} (h : Counted w) (requests : List Request) : Counted (run w requests) := by
  have hstep : ∀ w r, Counted w → True → Counted (serve w r) := fun w r hw _ => counted_serve hw r
  exact Lib.Run.invariant hstep h (Lib.Run.meets_of_always (fun _ _ => trivial) w requests)

/-- The peer's requests for registration were counted under its own address. -/
def OwnKey (peer : Peer) (w : World) : Prop :=
  ∀ s ∈ w.log, s.peer = peer → s.route = .registrationVerify → s.key = peer.text ++ ':' :: Route.registrationVerify.bucket

/-- A request for registration by the peer is unforged. -/
def Honest (peer : Peer) (r : Request) : Prop := r.peer = peer → r.route = .registrationVerify → Unforged peer r.headers

theorem ownKey_serve {peer : Peer} {w : World} (h : OwnKey peer w) {r : Request} (hr : Honest peer r) :
    OwnKey peer (serve w r) := by
  intro s hs hpeer hroute
  rcases List.mem_append.1 hs with hs | hs
  · exact h s hs hpeer hroute
  · rw [List.mem_singleton] at hs
    subst hs
    obtain rfl := hpeer
    rw [← hroute]
    exact keyOf_unforged (hr rfl hroute) r.route

/-- The requests for registration of the peer that were admitted in the window. -/
def admittedIn (peer : Peer) (window : Window) (w : World) : List Served :=
  w.log.filter fun s => s.peer = peer && s.route = .registrationVerify && s.admitted && window.reset - 60000 ≤ s.time &&
    s.time ≤ window.reset

/-- Ten at most in each window that a request for registration of the peer was counted in. -/
def Limited (peer : Peer) (w : World) : Prop :=
  ∀ s ∈ w.log, s.peer = peer → s.route = .registrationVerify → ∀ window, w.limiter.hits s.key = some window →
    (admittedIn peer window w).length ≤ 10

theorem limited_of_ownKey {peer : Peer} {w : World} (hkey : OwnKey peer w) (h : Counted w) : Limited peer w := by
  intro s hs hpeer hroute window hwindow
  rw [hkey s hs hpeer hroute] at hwindow
  obtain ⟨hcount, hlimit⟩ := (h peer.text .registrationVerify).counted window hwindow
  have hsub : (admittedIn peer window w).length ≤
      ((timesOf w (peer.text ++ ':' :: Route.registrationVerify.bucket)).filter (window.reset - 60000 ≤ ·)).length := by
    rw [timesOf, List.filter_map, List.length_map, List.filter_filter, admittedIn, ← List.countP_eq_length_filter,
      ← List.countP_eq_length_filter]
    refine List.countP_mono_left fun t ht hin => ?_
    simp only [Bool.and_eq_true, decide_eq_true_eq] at hin
    simp only [Function.comp_apply, hin, hkey t ht hin.1.1.1.1 hin.1.1.1.2, decide_true, Bool.and_self]
  exact hsub.trans (hcount.trans hlimit)

/-- Two requests of one peer come from one address where the addresses they name are the same, and a peer that names none but
its own is admitted ten times at most in each window, whatever others send. -/
theorem one_peer_one_limit (peer : Peer) (headers headers' : Headers) (now : ℤ) (requests : List Request)
    (h : ∀ r ∈ requests, Honest peer r) :
    (clientIp (reverseProxy peer headers) = clientIp (reverseProxy peer headers') ↔
      (claimed headers).getD peer.text = (claimed headers').getD peer.text) ∧
    Limited peer (run (start now) requests) := by
  constructor
  · rw [clientIp_reverseProxy, clientIp_reverseProxy, Option.some.injEq]
  · refine limited_of_ownKey ?_ (counted_run (counted_start now) requests)
    have hstep : ∀ w r, OwnKey peer w → Honest peer r → OwnKey peer (serve w r) := fun w r hw hr => ownKey_serve hw hr
    have hempty : OwnKey peer (start now) := fun s hs => absurd hs List.not_mem_nil
    exact Lib.Run.invariant hstep hempty (Lib.Run.meets_of_forall h (start now))

def visitor : Peer where
  text := "203.0.113.7".toList
  ne_nil := by decide
  no_comma := by decide
  no_space := List.forall_iff_forall_mem.1 (by decide)

def plainRequest : Request := ⟨0, visitor, [], .registrationVerify⟩

/-- Twelve requests at once, of which ten are admitted. -/
theorem one_peer_one_limit_visitor :
    (admittedIn visitor ⟨10, 60000⟩ (run (start 0) (List.replicate 12 plainRequest))).length = 10 ∧
      Limited visitor (run (start 0) (List.replicate 12 plainRequest)) := by
  refine ⟨by decide +kernel, (one_peer_one_limit visitor [] [] 0 _ fun r hr _ _ ip hip => ?_).2⟩
  rw [List.eq_of_mem_replicate hr] at hip
  cases hip

/-- A request that names an address of its own making. -/
def forgedRequest (n : ℕ) : Request := ⟨0, visitor, [("X-Real-IP".toList, Nat.toDigits 10 n)], .registrationVerify⟩

/-- One peer is admitted eleven times at once, under eleven addresses. -/
theorem forged_addresses_are_admitted :
    clientIp (reverseProxy visitor (forgedRequest 1).headers) ≠ clientIp (reverseProxy visitor (forgedRequest 2).headers) ∧
      ¬ Limited visitor (run (start 0) ((List.range 11).map forgedRequest)) := by
  refine ⟨by decide +kernel, fun h => ?_⟩
  have hserved : ⟨visitor, .registrationVerify, "0:/api/auth/registration/verify".toList, 0, true⟩ ∈
      (run (start 0) ((List.range 11).map forgedRequest)).log := by decide +kernel
  have hten := h _ hserved rfl rfl ⟨1, 60000⟩ (by decide +kernel)
  exact absurd hten (by decide +kernel)

end Captivo.RateLimit
