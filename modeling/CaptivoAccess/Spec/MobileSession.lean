import CaptivoAccess.Lib.Threads
import CaptivoAccess.Spec.RecFetch
import CaptivoAccess.Spec.SessionPolicy

/-! Sessions of the console and of the app (`lib/auth/session.ts`, `lib/mobile/session.ts`
with the PKCE check of `lib/mobile/handoff.ts`), each call as the statements it makes. A row
of the app is first a one-time code and then its bearer token. A statement takes effect at
once, and times are in milliseconds. -/

namespace Captivo.Mobile

open Lib.Threads
open Captivo.RecFetch (Text trim)

/-- A row of `Session`. The id is one that `cuid()` never hands out again. -/
structure Session where
  id : ℕ
  userId : Text
  tokenHash : Text
  expiresAt : ℕ
  lastSeenAt : ℕ
  mobile : Bool
  mobileChallenge : Option Text
  deriving DecidableEq

/-- What a generated token was written for: a code with its challenge and its end, the app or the console, and in which row. -/
inductive Use where
  | code (id : ℕ) (challenge : Text) (expiresAt : ℕ)
  | app (id : ℕ)
  | console (id : ℕ)
  deriving DecidableEq

/-- What calls have come to. A call that answers null is there only when it deleted the row of the code. -/
inductive Answer where
  /-- `readAt` is when the call read the row. -/
  | redeemed (code : Text) (verifier : Option Text) (token userId : Text) (readAt : ℕ)
  | burned (code : Text)
  | bearer (token : Text) (sessionId : ℕ)
  | console (token userId : Text)
  deriving DecidableEq

def Answer.redeemedCode : Answer → Option Text
  | .redeemed code _ _ _ _ => some code
  | _ => none

structure World where
  sessions : List Session
  nextId : ℕ
  /-- Whose status is `ACTIVE`. -/
  active : Text → Bool
  now : ℕ
  made : List Use
  answers : List Answer

def noSessions (active : Text → Bool) (now : ℕ) : World := ⟨[], 0, active, now, [], []⟩

def CODE_TTL_MS : ℕ := 2 * 60 * 1000

def MOBILE_SESSION_DAYS : ℕ := 30

def DAY_MS : ℕ := 24 * 60 * 60 * 1000

/-! Texts. -/

/-- `/^[A-Za-z0-9._~-]{43,128}$/`. -/
def isVerifier (v : Text) : Bool :=
  43 ≤ v.length && v.length ≤ 128 && v.all fun c => c.isAlphanum || c ∈ ['.', '_', '~', '-']

/-- `/^[A-Za-z0-9_-]{20,200}$/`. -/
def isBearer (t : Text) : Bool :=
  20 ≤ t.length && t.length ≤ 200 && t.all fun c => c.isAlphanum || c ∈ ['_', '-']

/-- `bearerToken` of the authorization header. -/
def bearerToken (authorization : Option Text) : Option Text :=
  let h := trim (authorization.getD [])
  if "Bearer ".toList.isPrefixOf h && isBearer (h.drop 7) then some (h.drop 7) else none

/-- The verifier is none when it is not a string; `s256` is SHA-256 in base64url. -/
def pkceMatches (s256 : Text → Text) (verifier : Option Text) (challenge : Text) : Bool :=
  match verifier with
  | none => false
  | some v => isVerifier v && s256 v = challenge

/-! Statements. -/

inductive SessionStmt where
  | read
  | issue (userId challenge : Text) (now : ℕ)
  | create (userId : Text) (expiresAt : ℕ)
  /-- The row's hash is swapped where it is still that of the code. -/
  | swap (code : Text) (verifier : Option Text) (id : ℕ) (userId : Text) (readAt now : ℕ)
  | burn (code : Text) (id : ℕ)
  | touch (id now : ℕ) (answer : Answer)
  | deleteMany (sel : Session → Bool)
  | setStatus (userId : Text) (active : Bool)
  | wait (ms : ℕ)

def updateMany (sel : Session → Bool) (f : Session → Session) (sessions : List Session) : List Session :=
  sessions.map fun s => if sel s then f s else s

section

-- `sha256` is in hex, and `generate` is what `generateToken` returns, the first time, the second and so on
variable (sha256 s256 : Text → Text) (generate : ℕ → Text)

def ofCode (code : Text) (id : ℕ) (s : Session) : Bool := s.id = id && s.tokenHash = sha256 code

/-- A token is generated in the statement that writes its hash: nobody has it before. -/
def SessionStmt.apply : SessionStmt → World → World
  | .read => id
  | .issue userId challenge now => fun w =>
    let expiresAt := now + CODE_TTL_MS
    { w with
      sessions := w.sessions ++ [⟨w.nextId, userId, sha256 (generate w.made.length), expiresAt, w.now, true, some challenge⟩]
      nextId := w.nextId + 1
      made := w.made ++ [.code w.nextId challenge expiresAt] }
  | .create userId expiresAt => fun w =>
    { w with
      sessions := w.sessions ++ [⟨w.nextId, userId, sha256 (generate w.made.length), expiresAt, w.now, false, none⟩]
      nextId := w.nextId + 1
      made := w.made ++ [.console w.nextId] }
  | .swap code verifier id userId readAt now => fun w =>
    let token := generate w.made.length
    { w with
      sessions := updateMany (ofCode sha256 code id)
        (fun s => { s with
          tokenHash := sha256 token
          mobileChallenge := none
          expiresAt := now + MOBILE_SESSION_DAYS * DAY_MS
          lastSeenAt := now })
        w.sessions
      made := w.made ++ [.app id]
      answers := if w.sessions.countP (ofCode sha256 code id) = 1 then w.answers ++ [.redeemed code verifier token userId readAt] else w.answers }
  | .burn code id => fun w =>
    { w with sessions := w.sessions.filter (fun s => s.id ≠ id), answers := w.answers ++ [.burned code] }
  | .touch id now answer => fun w =>
    { w with
      sessions := updateMany (fun s => s.id = id) (fun s => { s with lastSeenAt := now }) w.sessions
      answers := w.answers ++ [answer] }
  | .deleteMany sel => fun w => { w with sessions := w.sessions.filter fun s => !sel s }
  | .setStatus userId active => fun w => { w with active := Function.update w.active userId active }
  | .wait ms => fun w => { w with now := w.now + ms }

abbrev SessionThread := Thread World SessionStmt

def exec (s : SessionStmt) (next : World → SessionThread) : SessionThread := .act s (s.apply sha256 generate) next

def finish (s : SessionStmt) : SessionThread := exec sha256 generate s fun _ => .done

/-! Calls. -/

def issueMobileCode (userId challenge : Text) : SessionThread :=
  exec sha256 generate .read fun w => finish sha256 generate (.issue userId challenge w.now)

/-- The code and the verifier are none when they are not strings. -/
def redeemMobileCode (code verifier : Option Text) : SessionThread :=
  match code with
  | none => .done
  | some code =>
    if code = [] then .done
    else exec sha256 generate .read fun w =>
      match w.sessions.find? fun s => s.tokenHash = sha256 code && s.mobile && s.mobileChallenge.isSome with
      | none => .done
      | some row =>
        match row.mobileChallenge with
        | none => .done
        | some challenge =>
          if challenge = [] then .done
          else exec sha256 generate .read fun clock =>
            if row.expiresAt < clock.now || !pkceMatches s256 verifier challenge then finish sha256 generate (.burn code row.id)
            else finish sha256 generate (.swap code verifier row.id row.userId w.now clock.now)

def mobileSessionFromRequest (authorization : Option Text) : SessionThread :=
  match bearerToken authorization with
  | none => .done
  | some token =>
    exec sha256 generate .read fun w =>
      match w.sessions.find? fun s => s.tokenHash = sha256 token && s.mobile && s.mobileChallenge.isNone with
      | none => .done
      | some s =>
        exec sha256 generate .read fun clock =>
          if s.expiresAt < clock.now || !w.active s.userId then .done
          else finish sha256 generate (.touch s.id clock.now (.bearer token s.id))

/-- `getSessionUser`, where the session policy has answered with the idle timeout. -/
def getSessionUser (token : Text) (idleTimeoutMinutes : Option ℤ) : SessionThread :=
  if token = [] then .done
  else exec sha256 generate .read fun w =>
    match w.sessions.find? fun s => s.tokenHash = sha256 token with
    | none => .done
    | some s =>
      exec sha256 generate .read fun clock =>
        if s.expiresAt < clock.now then .done
        else if s.mobile then .done
        else if !w.active s.userId then .done
        else exec sha256 generate .read fun clock =>
          if Policy.idleExpired s.lastSeenAt clock.now idleTimeoutMinutes then finish sha256 generate (.deleteMany fun s' => s'.id = s.id)
          else finish sha256 generate (.touch s.id clock.now (.console token s.userId))

/-- A call, and what else is done to sessions: one of the console is created at sign-in or for support, rows are deleted
at sign-out, by an administrator, with a membership or to make room, users are disabled, and time goes by. -/
inductive Request where
  | issueMobileCode (userId challenge : Text)
  | redeemMobileCode (code verifier : Option Text)
  | mobileSessionFromRequest (authorization : Option Text)
  | getSessionUser (token : Text) (idleTimeoutMinutes : Option ℤ)
  | createSession (userId : Text) (ttlMs : ℕ)
  | deleteMany (sel : Session → Bool)
  | setStatus (userId : Text) (active : Bool)
  | wait (ms : ℕ)

def Request.thread : Request → SessionThread
  | .issueMobileCode userId challenge => Mobile.issueMobileCode sha256 generate userId challenge
  | .redeemMobileCode code verifier => Mobile.redeemMobileCode sha256 s256 generate code verifier
  | .mobileSessionFromRequest authorization => Mobile.mobileSessionFromRequest sha256 generate authorization
  | .getSessionUser token idle => Mobile.getSessionUser sha256 generate token idle
  | .createSession userId ttlMs => exec sha256 generate .read fun w => finish sha256 generate (.create userId (w.now + ttlMs))
  | .deleteMany sel => finish sha256 generate (.deleteMany sel)
  | .setStatus userId active => finish sha256 generate (.setStatus userId active)
  | .wait ms => finish sha256 generate (.wait ms)

def sessionPool (active : Text → Bool) (now : ℕ) (requests : ℕ → Request) : Pool World SessionStmt :=
  ⟨noSessions active now, fun i => (requests i).thread sha256 s256 generate⟩

end

end Captivo.Mobile
