import Mathlib.Data.Nat.Digits.Lemmas
import CaptivoAccess.Spec.SiteHost

/-! The address of a workspace: the slug that is proposed for an organisation
(`lib/signup/entitled-flow.ts`) and the slugs that a tenant may have (`lib/tenant/constants.ts`). -/

namespace Captivo.Signup

open Lib.Dns Captivo.Site

def RESERVED_SLUGS : List Text :=
  ["platform", "manager", "www", "app", "admin", "api", "connect", "sites"].map String.toList

def isReservedSlug (slug : Text) : Bool := slug ∈ RESERVED_SLUGS

def isValidTenantSlug (slug : Text) : Bool := isLabel slug && !isReservedSlug slug

def TR : List (Char × Char) :=
  [('ç', 'c'), ('ğ', 'g'), ('ı', 'i'), ('ö', 'o'), ('ş', 's'), ('ü', 'u'), ('Ç', 'c'), ('Ğ', 'g'), ('İ', 'i'), ('Ö', 'o'), ('Ş', 's'),
    ('Ü', 'u')]

/-- `.replace(/[^a-z0-9]+/g, "-")`; `inRun` behind a character that was replaced. -/
def hyphenateRuns : Bool → Text → Text
  | _, [] => []
  | inRun, c :: cs =>
    if alnum c then c :: hyphenateRuns false cs
    else if inRun then hyphenateRuns true cs
    else '-' :: hyphenateRuns true cs

/-- `.replace(/^-|-$/g, "")`. -/
def trimHyphens (t : Text) : Text :=
  let rest := if t.head? = some '-' then t.tail else t
  if rest.getLast? = some '-' then rest.dropLast else rest

/-- The name with a hyphen between its words. -/
def hyphenated (rt : Runtime) (organizationName : Text) : Text :=
  let folded := organizationName.map fun c => (TR.lookup c).getD c
  trimHyphens (hyphenateRuns false (rt.lower folded))

/-- `.toString(36)`. -/
def toString36 (n : ℕ) : Text :=
  if n = 0 then ['0'] else (Nat.digits 36 n).reverse.map fun d => Char.ofNat (if d < 10 then 48 + d else 87 + d)

/-- `now` is `Date.now()`. -/
def suggestedSlug (rt : Runtime) (now : ℕ) (organizationName : Text) : Text :=
  let slug := (hyphenated rt organizationName).take 40
  if slug = [] then "workspace-".toList ++ toString36 now else slug

end Captivo.Signup
