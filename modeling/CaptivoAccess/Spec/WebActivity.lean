import CaptivoAccess.Lib.Dns
import Mathlib.Data.List.Sort

/-! The spans of activity on web sites (`dataplane/webactivity.go`): a proxied request touches
the span of its user and site, and the list of active spans is asked for now and then.
Times are in nanoseconds. -/

namespace Captivo.WebActivity

open Lib.Dns

structure WebSessionInfo where
  userID : Text
  siteID : Text
  host : Text
  startedAt : ℤ
  lastSeen : ℤ
  deriving DecidableEq

def webKeySep : Char := '\x1f'

def webKey (userID siteID : Text) : Text := userID ++ webKeySep :: siteID

def WebSessionInfo.key (e : WebSessionInfo) : Text := webKey e.userID e.siteID

/-- The map: each span stands under the key of its user and site. -/
structure WebActivityTracker where
  m : List WebSessionInfo
  keyed : (m.map WebSessionInfo.key).Nodup

def NewWebActivityTracker : WebActivityTracker := ⟨[], List.nodup_nil⟩

def WebActivityTracker.get (t : WebActivityTracker) (key : Text) : Option WebSessionInfo := t.m.find? (·.key = key)

theorem keyed_filter {m : List WebSessionInfo} (h : (m.map WebSessionInfo.key).Nodup) (p : WebSessionInfo → Bool) :
    ((m.filter p).map WebSessionInfo.key).Nodup :=
  h.sublist (List.filter_sublist.map _)

/-- Puts a span into the map, in place of the one that has its key. -/
def WebActivityTracker.put (t : WebActivityTracker) (e : WebSessionInfo) : WebActivityTracker where
  m := e :: t.m.filter (·.key ≠ e.key)
  keyed := by
    rw [List.map_cons, List.nodup_cons]
    refine ⟨fun hmem => ?_, keyed_filter t.keyed _⟩
    obtain ⟨e', he', hkey⟩ := List.mem_map.1 hmem
    exact of_decide_eq_true (List.mem_filter.1 he').2 hkey

structure Touched where
  now : ℤ
  userID : Text
  siteID : Text
  host : Text

def touch (idle : ℤ) (t : WebActivityTracker) (r : Touched) : WebActivityTracker × Bool :=
  if r.userID = [] ∨ r.siteID = [] then (t, false)
  else
    let fresh : WebSessionInfo := ⟨r.userID, r.siteID, r.host, r.now, r.now⟩
    match t.get (webKey r.userID r.siteID) with
    | some e => if r.now - e.lastSeen ≤ idle then (t.put { e with lastSeen := r.now, host := r.host }, false) else (t.put fresh, true)
    | none => (t.put fresh, true)

/-- The order in which the map is gone through, which is any. -/
structure MapOrder where
  arrange : List WebSessionInfo → List WebSessionInfo
  perm : ∀ l, (arrange l).Perm l

/-- `List`: what is older than the idle period is pruned. The sort need not be stable. -/
def list (idle : ℤ) (t : WebActivityTracker) (now : ℤ) (order : MapOrder) : WebActivityTracker × List WebSessionInfo :=
  let kept := t.m.filter fun e => !(e.lastSeen < now - idle)
  (⟨kept, keyed_filter t.keyed _⟩, (order.arrange kept).insertionSort fun a b => b.startedAt ≤ a.startedAt)

inductive TrackerCall where
  | touch (r : Touched)
  | list (now : ℤ) (order : MapOrder)

def TrackerCall.now : TrackerCall → ℤ
  | .touch r => r.now
  | .list now _ => now

def TrackerCall.isTouch : TrackerCall → Bool
  | .touch _ => true
  | .list _ _ => false

def call (idle : ℤ) (t : WebActivityTracker) : TrackerCall → WebActivityTracker
  | .touch r => (touch idle t r).1
  | .list now order => (list idle t now order).1

def run (idle : ℤ) (calls : List TrackerCall) : WebActivityTracker := calls.foldl (call idle) NewWebActivityTracker

def touches (idle : ℤ) : WebActivityTracker → List TrackerCall → List Bool
  | _, [] => []
  | t, .touch r :: calls => (touch idle t r).2 :: touches idle (touch idle t r).1 calls
  | t, .list now order :: calls => touches idle (list idle t now order).1 calls

end Captivo.WebActivity
