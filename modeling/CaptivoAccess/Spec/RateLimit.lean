import CaptivoAccess.Lib.Quota
import CaptivoAccess.Spec.RecFetch

/-! The address a request is taken to come from (`lib/request-ip.ts`), behind the front
proxy of `deploy/Caddyfile`, and the limiter that counts requests by it
(`lib/rate-limit.ts`), with the routes that ask it. Times are in milliseconds. -/

namespace Captivo.RateLimit

open Lib.Quota Captivo.RecFetch

/-! Headers. -/

/-- The fields of a request, in the order they were sent. -/
abbrev Headers := List (Text × Text)

def isNamed (name : Text) (field : Text × Text) : Bool := field.1.map Char.toLower = name

/-- `headers.get`: the values of a name that is sent more than once are put together. -/
def Headers.get (headers : Headers) (name : Text) : Option Text :=
  match headers.filter (isNamed name) with
  | [] => none
  | fields => some (List.intercalate ", ".toList (fields.map Prod.snd))

structure Peer where
  text : Text
  ne_nil : text ≠ []
  no_comma : ',' ∉ text
  no_space : ∀ c ∈ text, isSpace c = false
  deriving DecidableEq

def reverseProxy (peer : Peer) (headers : Headers) : Headers :=
  headers.filter (fun field => !isNamed "x-forwarded-for".toList field) ++ [("X-Forwarded-For".toList, peer.text)]

def hops (xff : Text) : List Text := ((xff.splitOn ',').map trim).filter (· ≠ [])

def clientIp (headers : Headers) : Option Text :=
  match (headers.get "x-real-ip".toList).filter fun real => trim real ≠ [] with
  | some real => some (trim real)
  | none => (headers.get "x-forwarded-for".toList).bind fun xff => (hops xff).getLast?

/-! The limiter. -/

structure Limiter where
  hits : Text → Option Window
  lastSweep : ℤ

def sweep (now : ℤ) (l : Limiter) : Limiter :=
  if now - l.lastSweep < 1000 then l
  else ⟨fun key => (l.hits key).filter fun e => !e.over now, now⟩

def checkRateLimit (now : ℤ) (key : Text) (limit : ℕ) (windowMs : ℤ) (l : Limiter) : Limiter × Bool :=
  let l := sweep now l
  match (l.hits key).filter fun e => !e.over now with
  | none => ({ l with hits := Function.update l.hits key (some ⟨1, now + windowMs⟩) }, true)
  | some e =>
    if limit ≤ e.count then (l, false)
    else ({ l with hits := Function.update l.hits key (some ⟨e.count + 1, e.reset⟩) }, true)

inductive Route where
  | registrationOptions
  | registrationVerify
  | authenticationOptions
  | authenticationVerify
  | recover
  | connectorEnroll
  | signupStart
  deriving DecidableEq

/-- What is behind the address in a key: the path, but for sign-up. -/
def Route.bucket : Route → Text
  | .registrationOptions => "/api/auth/registration/options".toList
  | .registrationVerify => "/api/auth/registration/verify".toList
  | .authenticationOptions => "/api/auth/authentication/options".toList
  | .authenticationVerify => "/api/auth/authentication/verify".toList
  | .recover => "/api/auth/recover".toList
  | .connectorEnroll => "/api/connector/enroll".toList
  | .signupStart => "signup".toList

def Route.limit : Route → ℕ
  | .signupStart => 5
  | _ => 10

def Route.windowMs : Route → ℤ
  | .signupStart => 10 * 60000
  | _ => 60000

def keyOf (headers : Headers) (route : Route) : Text :=
  (clientIp headers).getD "unknown".toList ++ ':' :: route.bucket

/-! Runs. -/

/-- A request that reaches the limiter, some time after the one before. -/
structure Request where
  wait : ℕ
  peer : Peer
  headers : Headers
  route : Route

structure Served where
  peer : Peer
  route : Route
  key : Text
  time : ℤ
  admitted : Bool
  deriving DecidableEq

structure World where
  now : ℤ
  limiter : Limiter
  log : List Served

def serve (w : World) (r : Request) : World :=
  let now := w.now + r.wait
  let key := keyOf (reverseProxy r.peer r.headers) r.route
  let checked := checkRateLimit now key r.route.limit r.route.windowMs w.limiter
  ⟨now, checked.1, w.log ++ [⟨r.peer, r.route, key, now, checked.2⟩]⟩

def start (now : ℤ) : World := ⟨now, ⟨fun _ => none, 0⟩, []⟩

def run (w : World) (requests : List Request) : World := requests.foldl serve w

end Captivo.RateLimit
