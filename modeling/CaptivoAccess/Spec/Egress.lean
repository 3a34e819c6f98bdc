import CaptivoAccess.Lib.HostPort

/-! What a connector dials (`connector/config.go`, `policy.go` and the relays of
`handler.go`): the boundary of its own `ALLOWED_TARGETS`, the narrower one that the console
pushes, and the block of link-local addresses before both. A URL reaches the relays as
`url.Parse` leaves it, with its authority unescaped. -/

namespace Captivo.Egress

open Lib.Dns Lib.IpText Lib.HostPort

/-! Addresses, as 128 bits. -/

/-- `net.ParseIP`: an address with a zone is none. -/
def parseIP (s : Text) : Option ℕ := (parseAddr s).bind fun (ip, zone) => if zone = [] then some ip else none

def to4 (ip : ℕ) : Option ℕ := if ip / 2 ^ 32 = 0xffff then some (ip % 2 ^ 32) else none

/-- 169.254.0.0/16 and fe80::/10. -/
def isLinkLocalUnicast (ip : ℕ) : Bool :=
  match to4 ip with
  | some v => v / 2 ^ 16 = 0xa9fe
  | none => ip / 2 ^ 118 = 0x3fa

/-- 224.0.0.0/24 and ff02::/16, with any flags. -/
def isLinkLocalMulticast (ip : ℕ) : Bool :=
  match to4 ip with
  | some v => v / 2 ^ 8 = 0xe00000
  | none => ip / 2 ^ 120 = 0xff && ip / 2 ^ 112 % 16 = 2

def isLinkLocal (ip : ℕ) : Bool := isLinkLocalUnicast ip || isLinkLocalMulticast ip

structure IPNet where
  number : ℕ
  length : ℕ
  deriving DecidableEq

def parseCIDR (s : Text) : Option IPNet :=
  let mask := (s.dropWhile (· ≠ '/')).tail
  match parseIP (s.takeWhile (· ≠ '/')) with
  | none => none
  | some ip =>
    let width := if (parseIPv4 (s.takeWhile (· ≠ '/'))).isSome then 32 else 128
    if '/' ∈ s && mask ≠ [] && mask.all Char.isDigit && ofDigits mask ≤ width then
      let length := 128 - width + ofDigits mask
      some ⟨ip / 2 ^ (128 - length) * 2 ^ (128 - length), length⟩
    else none

/-- An address of one version is in no network of the other. -/
def IPNet.contains (n : IPNet) (ip : ℕ) : Bool :=
  (to4 n.number).isSome = (to4 ip).isSome && ip / 2 ^ (128 - n.length) = n.number / 2 ^ (128 - n.length)

/-! The boundaries. -/

structure TargetMatcher where
  isOpen : Bool
  cidrs : List IPNet
  hosts : List Text
  hostPorts : List Text

def openMatcher : TargetMatcher := ⟨true, [], [], []⟩

def addTarget (m : TargetMatcher) (e : Text) : Except Text TargetMatcher :=
  if e = [] then .ok m
  else match parseCIDR e with
    | some n => .ok { m with cidrs := m.cidrs ++ [n] }
    | none =>
      if '/' ∈ e then .error ("bad CIDR in ALLOWED_TARGETS: ".toList ++ e)
      else if (splitHostPort e).isSome then .ok { m with hostPorts := m.hostPorts ++ [e] }
      else .ok { m with hosts := m.hosts ++ [e] }

section Policy

variable (trimSpace : Text → Text)

def parseAllowedTargets (s : Text) : Except Text TargetMatcher :=
  if trimSpace s = [] then .ok openMatcher
  else (s.splitOn ',').foldlM (fun m e => addTarget m (trimSpace e)) ⟨false, [], [], []⟩

/-- A pushed policy that cannot be read keeps the one before it. -/
def applyPolicy (m : TargetMatcher) (egressAllowedTargets : Text) : TargetMatcher :=
  match parseAllowedTargets trimSpace egressAllowedTargets with
  | .ok m' => m'
  | .error _ => m

/-- What the policies pushed so far have left; the first matcher is open. -/
def policyMatcher (pushed : List Text) : TargetMatcher := pushed.foldl (applyPolicy trimSpace) openMatcher

end Policy

def TargetMatcher.allowed (m : TargetMatcher) (authority : Text) : Bool :=
  let (host, port) := (splitHostPort authority).getD (authority, [])
  m.isOpen || host ∈ m.hosts || (port ≠ [] && host ++ ':' :: port ∈ m.hostPorts) ||
    (parseIP host).any fun ip => m.cidrs.any (·.contains ip)

def isBlockedTarget (authority : Text) : Bool :=
  let (host, _) := (splitHostPort authority).getD (authority, [])
  (parseIP host).any isLinkLocal

def egressAllowed (allow policy : TargetMatcher) (authority : Text) : Bool :=
  if isBlockedTarget authority then false else allow.allowed authority && policy.allowed authority

/-! The relays. -/

/-- HTTP, WebSocket and probe streams come with a URL, LDAP and guacd streams with a host and a port. -/
inductive Relay where
  | upstream
  | address
  deriving DecidableEq

def Relay.host : Relay → Text → Option Text
  | .upstream, authority => if hostname authority = [] then none else some (hostname authority)
  | .address, target => ((splitHostPort target).filter fun (host, port) => host ≠ [] && port ≠ []).map Prod.fst

def Relay.badTarget : Relay → String
  | .upstream => "bad upstream url"
  | .address => "bad target"

def dial (relay : Relay) (allow policy : TargetMatcher) (authority : Text) : Except String Text :=
  match relay.host authority with
  | none => .error relay.badTarget
  | some host => if egressAllowed allow policy authority then .ok host else .error "target not allowed"

end Captivo.Egress
