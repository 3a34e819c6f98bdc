import CaptivoAccess.Spec.Suspension

/-! Sign-ins under a cap on concurrent sessions (`createSession` of `lib/auth/session.ts`):
each call counts the user's live sessions, ends the oldest of them and inserts its own, in
statements of its own. A statement takes effect at once, and times are in milliseconds. -/

namespace Captivo.SessionCap

open Lib.Dns Lib.Threads
open Captivo.Policy (sessionTtlMs evictionIds)
open Captivo.Suspension (Session SignIn)

structure SessionTable where
  sessions : List Session
  now : ℤ
  made : List Text

def live (now : ℤ) (userId : Text) (s : Session) : Bool := s.userId = userId && now < s.expiresAt && !s.mobile

/-- The live sessions, oldest first. -/
def activeSessions (t : SessionTable) (userId : Text) : List Session :=
  (t.sessions.filter (live t.now userId)).insertionSort fun s s' => s.createdAt ≤ s'.createdAt

inductive SessionStmt where
  | read
  | evict (userId : Text) (ids : List String)
  | create (signIn : SignIn)
  /-- A sign-out, a revocation, or the end of sessions that were idle. -/
  | delete (sel : Session → Bool)
  | wait (ms : ℕ)

def SessionStmt.apply : SessionStmt → SessionTable → SessionTable
  | .read, t => t
  | .evict _ ids, t => { t with sessions := t.sessions.filter fun s => s.id ∉ ids }
  | .create signIn, t =>
    let ttl := (sessionTtlMs signIn.policy.maxSessionHours signIn.envTtlHours).floor
    { t with
      sessions := t.sessions ++ [⟨signIn.sessionId, signIn.userId, signIn.tokenHash, t.now, t.now + ttl, t.now, false⟩]
      made := t.made ++ [signIn.userId] }
  | .delete sel, t => { t with sessions := t.sessions.filter fun s => !sel s }
  | .wait ms, t => { t with now := t.now + ms }

abbrev SessionThread := Thread SessionTable SessionStmt

def exec (s : SessionStmt) (next : SessionTable → SessionThread) : SessionThread := .act s s.apply next

def finish (s : SessionStmt) : SessionThread := exec s fun _ => .done

/-- `createSession`, with the policy that was read. -/
def createSession (signIn : SignIn) : SessionThread :=
  if signIn.policy.maxConcurrentPerUser.any (0 < ·) then
    exec .read fun t =>
      let evict := evictionIds ((activeSessions t signIn.userId).map (·.id)) signIn.policy.maxConcurrentPerUser
      if evict = [] then finish (.create signIn) else exec (.evict signIn.userId evict) fun _ => finish (.create signIn)
  else finish (.create signIn)

inductive SessionRequest where
  | createSession (signIn : SignIn)
  | delete (sel : Session → Bool)
  | wait (ms : ℕ)

def SessionRequest.thread : SessionRequest → SessionThread
  | .createSession signIn => SessionCap.createSession signIn
  | .delete sel => finish (.delete sel)
  | .wait ms => finish (.wait ms)

def sessionPool (sessions : List Session) (now : ℤ) (requests : List SessionRequest) : Pool SessionTable SessionStmt :=
  ⟨⟨sessions, now, []⟩, fun i => (requests[i]?).elim .done SessionRequest.thread⟩

end Captivo.SessionCap
