import CaptivoAccess.Spec.Registry

/-! What a step of the registry's handlers, kicks and reports can do: the fields that each
part of a step writes, and the cases of `step` with what they require. -/

namespace Captivo.Registry

open Captivo.Enroll

namespace State

variable (s : State) (i k : ℕ) (id : String) (session : Option ℕ)

@[simp] theorem goOn_m (pc : TunnelPc) : (s.goOn i pc).m = s.m := rfl
@[simp] theorem goOn_closed (pc : TunnelPc) : (s.goOn i pc).closed = s.closed := rfl
@[simp] theorem goOn_tunnel (pc : TunnelPc) : (s.goOn i pc).tunnel = Function.update s.tunnel i pc := rfl
@[simp] theorem goOn_kick (pc : TunnelPc) : (s.goOn i pc).kick = s.kick := rfl

@[simp] theorem kickOn_m (pc : KickPc) : (s.kickOn k pc).m = s.m := rfl
@[simp] theorem kickOn_closed (pc : KickPc) : (s.kickOn k pc).closed = s.closed := rfl
@[simp] theorem kickOn_tunnel (pc : KickPc) : (s.kickOn k pc).tunnel = s.tunnel := rfl
@[simp] theorem kickOn_kick (pc : KickPc) : (s.kickOn k pc).kick = Function.update s.kick k pc := rfl

@[simp] theorem closeMux_m : (s.closeMux session).m = s.m := rfl
@[simp] theorem closeMux_tunnel : (s.closeMux session).tunnel = s.tunnel := rfl
@[simp] theorem closeMux_kick : (s.closeMux session).kick = s.kick := rfl

@[simp] theorem put_m : (s.put id session).m = Function.update s.m id session := rfl
@[simp] theorem put_closed : (s.put id session).closed = s.closed := rfl
@[simp] theorem put_tunnel : (s.put id session).tunnel = s.tunnel := rfl
@[simp] theorem put_kick : (s.put id session).kick = s.kick := rfl

@[simp] theorem count_m : (s.count id).m = s.m := rfl
@[simp] theorem count_closed : (s.count id).closed = s.closed := rfl
@[simp] theorem count_tunnel : (s.count id).tunnel = s.tunnel := rfl
@[simp] theorem count_kick : (s.count id).kick = s.kick := rfl

@[simp] theorem send_tunnel (r : Report) : (s.send r).tunnel = s.tunnel := rfl

theorem closeMux_self : (s.closeMux (some i)).closed i = true := Function.update_self ..

theorem closed_closeMux {i : ℕ} (h : s.closed i = true) : (s.closeMux session).closed i = true := by
  cases session with
  | none => exact h
  | some j =>
    by_cases hij : i = j
    · rw [hij, closeMux_self]
    · simpa [closeMux, Function.update_of_ne hij] using h

end State

variable (connector target : ℕ → String)

/-- The steps that do something, and the one that does nothing. -/
inductive Acts (s : State) : Event → State → Prop where
  | idle (e : Event) : Acts s e s
  | set (i : ℕ) (h : s.tunnel i = .connecting) :
    Acts s (.set i) ((((s.closeMux (s.m (connector i))).put (connector i) (some i)).count (connector i)).goOn i
      (.registered (s.changes (connector i) + 1)))
  | online (i change : ℕ) (h : s.tunnel i = .registered change) :
    Acts s (.online i) ((s.send ⟨connector i, .ONLINE, change⟩).goOn i .waiting)
  | remove (i : ℕ) (h : s.tunnel i = .waiting) (hclosed : s.closed i = true) (hm : s.m (connector i) = some i) :
    Acts s (.removeIfSame i) (((s.put (connector i) none).count (connector i)).goOn i (.removed (s.changes (connector i) + 1)))
  | replaced (i : ℕ) (h : s.tunnel i = .waiting) (hclosed : s.closed i = true) (hm : s.m (connector i) ≠ some i) :
    Acts s (.removeIfSame i) (s.goOn i .closing)
  | offline (i change : ℕ) (h : s.tunnel i = .removed change) :
    Acts s (.offline i) ((s.send ⟨connector i, .OFFLINE, change⟩).goOn i .closing)
  | close (i : ℕ) (h : s.tunnel i = .closing) : Acts s (.close i) ((s.closeMux (some i)).goOn i .ended)
  | disconnect (i : ℕ) : Acts s (.disconnect i) (s.closeMux (some i))
  | deliver (r : Report) (h : r ∈ s.sent) : Acts s (.deliver r) (s.deliver r)
  | revoke (id : String) : Acts s (.revoke id) { s with status := Function.update s.status id .REVOKED }
  | kickGet (k : ℕ) (h : s.kick k = .asked) : Acts s (.kickGet k) (s.kickOn k (.got (s.m (target k))))
  | kickClose (k : ℕ) (session : Option ℕ) (h : s.kick k = .got session) :
    Acts s (.kickClose k) ((s.closeMux session).kickOn k (.closed session))
  | kickRemove (k : ℕ) (session : Option ℕ) (h : s.kick k = .closed session) :
    Acts s (.kickRemove k) ((s.put (target k) none).kickOn k .ended)

theorem acts_step (s : State) (e : Event) : Acts connector target s e (step connector target s e) := by
  cases e with
  | set i =>
    simp only [step]
    split_ifs with h
    · exact .set i h
    · exact .idle _
  | online i =>
    simp only [step]
    split
    · exact .online i _ ‹_›
    · exact .idle _
  | removeIfSame i =>
    simp only [step]
    split_ifs with h hm
    · exact .remove i h.1 h.2 hm
    · exact .replaced i h.1 h.2 hm
    · exact .idle _
  | offline i =>
    simp only [step]
    split
    · exact .offline i _ ‹_›
    · exact .idle _
  | close i =>
    simp only [step]
    split_ifs with h
    · exact .close i h
    · exact .idle _
  | disconnect i => exact .disconnect i
  | deliver r =>
    simp only [step]
    split_ifs with h
    · exact .deliver r h
    · exact .idle _
  | revoke id => exact .revoke id
  | kickGet k =>
    simp only [step]
    split_ifs with h
    · exact .kickGet k h
    · exact .idle _
  | kickClose k =>
    simp only [step]
    split
    · exact .kickClose k _ ‹_›
    · exact .idle _
  | kickRemove k =>
    simp only [step]
    split
    · exact .kickRemove k _ ‹_›
    · exact .idle _

end Captivo.Registry
