import CaptivoAccess.Lib.Utf8
import CaptivoAccess.Lib.WhatwgUrl

/-! Where a browser is sent after it agreed to being recorded (`dataplane/browserproxy.go`) and
after it signed in (`src/lib/auth/return-to.ts`). -/

namespace Captivo.ReturnTo

open Lib.Dns (Text)
open Lib.HttpHead (trim)
open Lib.Utf8 (Bytes ascii)
open Lib.WhatwgUrl

/-- The `returnTo` of the query, empty where there is none, if it is a path of the site. -/
def consentReturnTo (rt : Bytes) : Bytes :=
  if (ascii "/").isPrefixOf rt && !(ascii "//").isPrefixOf rt then rt else ascii "/"

/-! `http.Redirect` of a reference that begins with one slash. -/

def isHex (b : UInt8) : Bool := (48 ≤ b && b ≤ 57) || (65 ≤ b && b ≤ 70) || (97 ≤ b && b ≤ 102)

def unescapes : Bytes → Bool
  | [] => true
  | b :: t => (b ≠ 37 || ((t.take 2).length = 2 && (t.take 2).all isHex)) && unescapes t

/-- `url.Parse` takes it: no control byte in front of the fragment, path and fragment unescape. -/
def urlParses (url : Bytes) : Bool :=
  let front := url.takeWhile (· ≠ 35)
  front.all (fun b => 32 ≤ b && b ≠ 127) && unescapes (front.takeWhile (· ≠ 63)) &&
    unescapes (url.dropWhile (· ≠ 35)).tail

def cleanStep (out : List Bytes) (s : Bytes) : List Bytes :=
  if s = [] ∨ s = ascii "." then out else if s = ascii ".." then out.dropLast else out ++ [s]

/-- `path.Clean` of a path that begins with a slash. -/
def cleanPath (p : Bytes) : Bytes := 47 :: [47].intercalate ((p.splitOn 47).foldl cleanStep [])

def redirectURL (url : Bytes) : Bytes :=
  if urlParses url then
    -- a fragment in front of the first question mark is cleaned along with the path
    let path := url.takeWhile (· ≠ 63)
    let cleaned := cleanPath path
    (if path.getLast? = some 47 && cleaned.getLast? ≠ some 47 then cleaned ++ [47] else cleaned) ++
      url.dropWhile (· ≠ 63)
  else url

def hexDigit (n : ℕ) : UInt8 := UInt8.ofNat (if n < 10 then 48 + n else 87 + n)

def hexEscapeNonASCII (s : Bytes) : Bytes :=
  s.flatMap fun b => if b < 0x80 then [b] else [37, hexDigit (b.toNat / 16), hexDigit (b.toNat % 16)]

def newlineToSpace (c : Char) : Char := if c = '\n' ∨ c = '\r' then ' ' else c

def headerText (v : Bytes) : Text :=
  trim (fun c => c = ' ' || isTabOrNewline c) ((v.map fun b => Char.ofNat b.toNat).map newlineToSpace)

/-- The `Location` that answers the consent request. -/
def consentLocation (rt : Bytes) : Text := headerText (hexEscapeNonASCII (redirectURL (consentReturnTo rt)))

/-! After signing in. -/

/-- What `String.prototype.trim` takes off. -/
def isWhitespace (c : Char) : Bool :=
  (9 ≤ c.toNat && c.toNat ≤ 13) || (0x2000 ≤ c.toNat && c.toNat ≤ 0x200a) ||
    c.toNat ∈ [0x20, 0xa0, 0x1680, 0x2028, 0x2029, 0x202f, 0x205f, 0x3000, 0xfeff]

/-- `COOKIE_DOMAIN` without the dot it may begin with. -/
def bareDomain (domain : Text) : Text := if domain.head? = some '.' then domain.tail else domain

def suffixOf (domain : Text) : Text := if domain.head? = some '.' then domain else '.' :: domain

def safeReturnTo (hosts : HostParser) (cookieDomain : Option Text) (raw : Option Text) : Text :=
  match raw with
  | none => "/".toList
  | some raw =>
    if raw = [] then "/".toList
    else if "/".toList.isPrefixOf raw && !"//".toList.isPrefixOf raw then raw
    else
      let domain := trim isWhitespace (cookieDomain.getD [])
      if domain = [] then "/".toList
      else match parse hosts none raw with
        | .special u =>
          if u.scheme = .https && (u.hostString = bareDomain domain || (suffixOf domain).isSuffixOf u.hostString) then
            u.serialize
          else "/".toList
        | _ => "/".toList

def Within (domain : Text) (u : Url) : Prop := u.hostString = domain ∨ ('.' :: domain) <:+ u.hostString

instance (domain : Text) (u : Url) : Decidable (Within domain u) := inferInstanceAs (Decidable (_ ∨ _))

end Captivo.ReturnTo
