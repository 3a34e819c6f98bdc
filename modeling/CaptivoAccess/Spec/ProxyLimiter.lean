import CaptivoAccess.Lib.Quota
import CaptivoAccess.Lib.Dns

/-! The limiter of the data plane (`dataplane/ratelimit.go`). Times are in nanoseconds. -/

namespace Captivo.ProxyLimiter

open Lib.Quota Lib.Dns

structure RateLimiter where
  m : Text → Option Window
  lastSwp : ℤ

/-- The zero time is the start of the year 1. -/
def newRateLimiter : RateLimiter := ⟨fun _ => none, -62135596800000000000⟩

def sweep (now : ℤ) (r : RateLimiter) : RateLimiter :=
  if now - r.lastSwp < 1000000000 then r
  else ⟨fun k => (r.m k).filter fun e => !e.over now, now⟩

def allow (now : ℤ) (key : Text) (limit : ℕ) (window : ℤ) (r : RateLimiter) : RateLimiter × Bool :=
  let r := sweep now r
  let fresh : RateLimiter := { r with m := Function.update r.m key (some ⟨1, now + window⟩) }
  match r.m key with
  | none => (fresh, true)
  | some e =>
    if e.over now then (fresh, true)
    else if limit ≤ e.count then (r, false)
    else ({ r with m := Function.update r.m key (some ⟨e.count + 1, e.reset⟩) }, true)

end Captivo.ProxyLimiter
