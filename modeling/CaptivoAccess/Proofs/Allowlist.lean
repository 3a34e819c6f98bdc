import CaptivoAccess.Lib.IpText
import CaptivoAccess.Proofs.NetworkGate

/-! What an allowlist says and what it is taken for. A prefix length is whatever `Number`
makes of the text behind the slash, and a list without an entry is no list. -/

namespace Captivo.Access

open Lib.Dns Lib.IpText
open Captivo.DataPlane (entryCovers addEntry_of_valid ipAllowed_of_valid)

def width : Family → ℕ
  | .ipv4 => 32
  | .ipv6 => 128

/-- Four groups of one to three digits. -/
def isQuad (q : Text) : Bool := (q.splitOn '.').length = 4 && (q.splitOn '.').all isOctet

/-- Node's `BlockList` compares bits: an address has a value of 128 bits, the mapped one where it is of version 4, and a rule
takes the addresses whose first bits are those of its own. `Number` reads decimal digits as the number they are. -/
structure Bitwise (net : Net) where
  value : Text → ℕ
  subnet_isSome : ∀ {addr fam}, net.isIP addr = some fam → ∀ n : ℤ,
    (net.subnet addr n fam).isSome = true ↔ 0 ≤ n ∧ n ≤ width fam
  address_isSome : ∀ {addr fam}, net.isIP addr = some fam → (net.address addr fam).isSome = true
  subnet_covers : ∀ {addr fam} {n : ℤ} {rule ip fam'}, net.isIP addr = some fam → net.subnet addr n fam = some rule →
    net.isIP ip = some fam' →
      (net.covers rule ip fam' = true ↔ SharesPrefix (128 - width fam + n.toNat) (value addr) (value ip))
  address_covers : ∀ {addr fam rule ip fam'}, net.isIP addr = some fam → net.address addr fam = some rule →
    net.isIP ip = some fam' → (net.covers rule ip fam' = true ↔ SharesPrefix 128 (value addr) (value ip))
  mapped : ∀ {p q : Text}, p.map Char.toLower = "::ffff:".toList → isQuad q = true →
    (net.isIP (p ++ q)).isSome = (net.isIP q).isSome ∧ value (p ++ q) = value q
  toInteger_digits : ∀ {s : Text}, s ≠ [] → s.all Char.isDigit = true →
    if ofDigits s ≤ 128 then net.toInteger s = some (ofDigits s : ℤ)
    else ∀ n ∈ net.toInteger s, 128 < n

section Entries

variable (net : Net)

/-- The parts of an entry with a slash. -/
def addrOf (entry : Text) : Text := entry.takeWhile (· ≠ '/')

def lengthOf (entry : Text) : Text := (entry.dropWhile (· ≠ '/')).tail

def isDecimal (s : Text) : Bool := s ≠ [] && s.all Char.isDigit

/-- The network that an entry is written as: an address, and how many of its bits count. -/
def written (entry : Text) : Option (Text × ℕ) :=
  if '/' ∈ entry then
    (net.isIP (addrOf entry)).bind fun fam =>
      if isDecimal (lengthOf entry) && ofDigits (lengthOf entry) ≤ width fam then
        some (addrOf entry, 128 - width fam + ofDigits (lengthOf entry))
      else none
  else if (net.isIP entry).isSome then some (entry, 128) else none

/-- An address with something behind the slash that is no decimal number, but a number in range to `Number`. -/
def Coerced (entry : Text) : Prop :=
  '/' ∈ entry ∧ isDecimal (lengthOf entry) = false ∧
    ∃ fam n, net.isIP (addrOf entry) = some fam ∧ net.toInteger (lengthOf entry) = some n ∧ 0 ≤ n ∧ n ≤ width fam

variable {net}

/-- The written network contains the address. -/
def Contains (b : Bitwise net) (entry ip : Text) : Prop :=
  ∃ addr length, written net entry = some (addr, length) ∧ (net.isIP ip).isSome = true ∧
    SharesPrefix length (b.value addr) (b.value ip)

theorem width_le (fam : Family) : width fam ≤ 128 := by
  cases fam <;> decide

section Entry

variable (b : Bitwise net) {entry ip : Text}

theorem addEntry_slash (h : '/' ∈ entry) :
    addEntry net entry = (net.isIP (addrOf entry)).bind fun fam =>
      (net.toInteger (lengthOf entry)).bind fun n => net.subnet (addrOf entry) n fam := by
  rw [addEntry, if_pos h]
  unfold addrOf lengthOf
  dsimp only
  cases net.isIP (entry.takeWhile (· ≠ '/')) <;> cases net.toInteger ((entry.dropWhile (· ≠ '/')).tail) <;> rfl

/-- A decimal length is taken for the number it is, where that is in range, and refused where it is not. -/
theorem toInteger_decimal (b : Bitwise net) {s : Text} (h : isDecimal s = true) {w : ℕ} (hw : w ≤ 128) :
    (∃ n : ℤ, net.toInteger s = some n ∧ 0 ≤ n ∧ n ≤ w) ↔ ofDigits s ≤ w := by
  simp only [isDecimal, Bool.and_eq_true, decide_eq_true_eq] at h
  have hnum := b.toInteger_digits h.1 h.2
  split_ifs at hnum with hle
  · simp [hnum]
  · constructor
    · rintro ⟨n, hn, -, hnw⟩
      have := hnum n hn
      omega
    · intro hlt
      omega

theorem addEntry_isSome_iff (b : Bitwise net) :
    (addEntry net entry).isSome = true ↔ (written net entry).isSome = true ∨ Coerced net entry := by
  by_cases hslash : '/' ∈ entry
  · cases hip : net.isIP (addrOf entry) with
    | none => simp [addEntry_slash, written, Coerced, hslash, hip]
    | some fam =>
      have haccept : (addEntry net entry).isSome = true ↔
          ∃ n : ℤ, net.toInteger (lengthOf entry) = some n ∧ 0 ≤ n ∧ n ≤ width fam := by
        rw [addEntry_slash hslash, hip]
        cases hn : net.toInteger (lengthOf entry) with
        | none => simp
        | some n => simp [b.subnet_isSome hip]
      rw [haccept]
      cases hd : isDecimal (lengthOf entry) with
      | true =>
        rw [toInteger_decimal b hd (width_le fam)]
        simp [written, Coerced, hslash, hip, hd]
      | false => simp [written, Coerced, hslash, hip, hd]
  · cases hip : net.isIP entry with
    | none => simp [addEntry, written, Coerced, hslash, hip]
    | some fam => simp [addEntry, written, Coerced, hslash, hip, b.address_isSome hip]

theorem not_coerced_of_written (h : (written net entry).isSome = true) : ¬ Coerced net entry := by
  rintro ⟨hslash, hd, -⟩
  cases hip : net.isIP (addrOf entry) <;> simp [written, hslash, hip, hd] at h

theorem normalizeIp_value (ip : Text) :
    (net.isIP (normalizeIp ip)).isSome = (net.isIP ip).isSome ∧ b.value (normalizeIp ip) = b.value ip := by
  simp only [normalizeIp]
  split_ifs with hm
  · simp only [Bool.and_eq_true, decide_eq_true_eq] at hm
    have hquad : isQuad (ip.drop 7) = true := by simp [isQuad, hm.1.2, hm.2]
    obtain ⟨hip, hvalue⟩ := b.mapped hm.1.1 hquad
    rw [List.take_append_drop] at hip hvalue
    exact ⟨hip.symm, hvalue.symm⟩
  · exact ⟨rfl, rfl⟩

theorem covers_of_written {addr : Text} {length : ℕ} (h : written net entry = some (addr, length)) {rule : net.Rule}
    (hrule : addEntry net entry = some rule) {fam : Family} (hfam : net.isIP ip = some fam) :
    net.covers rule ip fam = true ↔ SharesPrefix length (b.value addr) (b.value ip) := by
  by_cases hslash : '/' ∈ entry
  · rw [addEntry_slash hslash] at hrule
    simp only [written, if_pos hslash] at h
    obtain ⟨fam', hip, h⟩ := Option.bind_eq_some_iff.1 h
    split_ifs at h with hlen
    cases h
    simp only [Bool.and_eq_true, decide_eq_true_eq] at hlen
    obtain ⟨hd, hle⟩ := hlen
    rw [hip, Option.bind_some] at hrule
    obtain ⟨n, hn, hrule⟩ := Option.bind_eq_some_iff.1 hrule
    simp only [isDecimal, Bool.and_eq_true, decide_eq_true_eq] at hd
    have hnum := b.toInteger_digits hd.1 hd.2
    rw [if_pos (hle.trans (width_le fam')), hn, Option.some.injEq] at hnum
    subst hnum
    exact b.subnet_covers hip hrule hfam
  · simp only [written, if_neg hslash] at h
    split_ifs at h with hip
    cases h
    rw [addEntry, if_neg hslash] at hrule
    obtain ⟨fam', hip', hrule⟩ := Option.bind_eq_some_iff.1 hrule
    exact b.address_covers hip' hrule hfam

theorem entryCovers_iff (h : (written net entry).isSome = true) : entryCovers net ip entry = true ↔ Contains b entry ip := by
  obtain ⟨hip, hvalue⟩ := normalizeIp_value b ip
  obtain ⟨⟨addr, length⟩, hw⟩ := Option.isSome_iff_exists.1 h
  obtain ⟨rule, hrule⟩ := Option.isSome_iff_exists.1 ((addEntry_isSome_iff b).2 (Or.inl h))
  simp only [Contains, entryCovers, hw, hrule, Option.any_some, ← hip, ← hvalue, Option.some.injEq, Prod.mk.injEq]
  cases hfam : net.isIP (normalizeIp ip) with
  | none => simp
  | some fam =>
    rw [Option.any_some, covers_of_written b hw hrule hfam]
    simp

end Entry

/-- The list is accepted where its entries are well formed, and then admits what they contain, and each of them no more. -/
structure Faithful (b : Bitwise net) (raw : Text) : Prop where
  accepted_iff : validateAllowlist net raw = [] ↔ ∀ entry ∈ entriesOf net raw, (written net entry).isSome = true
  allowed_iff : validateAllowlist net raw = [] → ∀ ip,
    (ipAllowed net raw ip = true ↔ ∃ entry ∈ entriesOf net raw, Contains b entry ip)
  entry_sound : validateAllowlist net raw = [] → ∀ entry ∈ entriesOf net raw, ∀ ip,
    entryCovers net ip entry = true → Contains b entry ip

theorem accepted_iff (b : Bitwise net) (raw : Text) :
    validateAllowlist net raw = [] ↔ ∀ entry ∈ entriesOf net raw, (written net entry).isSome = true ∨ Coerced net entry := by
  simp only [validateAllowlist, List.filter_eq_nil_iff, Bool.not_eq_true, Option.isNone_eq_false_iff, addEntry_isSome_iff b]

theorem allowed_of_no_entries {raw : Text} (h : entriesOf net raw = []) (ip : Text) : ipAllowed net raw ip = true := by
  simp [ipAllowed, build, h]

/-- A list does what it says where an accepted one has an entry, and no length that is not written in decimal digits. -/
theorem allowlist_faithful_iff (b : Bitwise net) (raw : Text) :
    Faithful b raw ↔
      ((∀ entry ∈ entriesOf net raw, (written net entry).isSome = true ∨ Coerced net entry) →
        entriesOf net raw ≠ [] ∧ ∀ entry ∈ entriesOf net raw, ¬ Coerced net entry) := by
  rw [← accepted_iff b]
  constructor
  · intro h haccepted
    refine ⟨fun hnil => ?_, fun entry hm => not_coerced_of_written (h.accepted_iff.1 haccepted entry hm)⟩
    -- without an entry everything is allowed, and nothing contained
    obtain ⟨entry, hm, -⟩ := (h.allowed_iff haccepted []).1 (allowed_of_no_entries hnil [])
    rw [hnil] at hm
    exact List.not_mem_nil hm
  · intro h
    have hwritten : validateAllowlist net raw = [] → ∀ entry ∈ entriesOf net raw, (written net entry).isSome = true :=
      fun haccepted entry hm => ((accepted_iff b raw).1 haccepted entry hm).resolve_right ((h haccepted).2 entry hm)
    refine ⟨⟨hwritten, fun hall => (accepted_iff b raw).2 fun entry hm => Or.inl (hall entry hm)⟩, ?_, ?_⟩
    · intro haccepted ip
      rw [ipAllowed_of_valid (h haccepted).1 haccepted]
      refine exists_congr fun entry => and_congr_right fun hm => entryCovers_iff b (hwritten haccepted entry hm)
    · intro haccepted entry hm ip
      exact (entryCovers_iff b (hwritten haccepted entry hm)).1

end Entries

/-! Node's `net` on addresses without a zone. -/

/-- The value of an address in 128 bits. -/
def addressValue (s : Text) : Option ℕ := ((parseIPv4 s).map mapped).or (parseIPv6 s)

def nodeNet : Net where
  Rule := ℕ × ℕ
  isIP s := if (parseIPv4 s).isSome then some .ipv4 else if (parseIPv6 s).isSome then some .ipv6 else none
  subnet addr n fam := if 0 ≤ n && n ≤ width fam then some (128 - width fam + n.toNat, (addressValue addr).getD 0) else none
  address addr _ := some (128, (addressValue addr).getD 0)
  covers rule ip _ := SharesPrefix rule.1 rule.2 ((addressValue ip).getD 0)
  -- `Number("")` is 0
  toInteger s := if s.all Char.isDigit then some (ofDigits s) else none
  isSpace c := c.isWhitespace

theorem isIP_isSome (s : Text) : (nodeNet.isIP s).isSome = (addressValue s).isSome := by
  simp only [nodeNet, addressValue]
  cases parseIPv4 s <;> cases parseIPv6 s <;> rfl

theorem isQuad_chars {q : Text} (h : isQuad q = true) : '.' ∈ q ∧ ∀ c ∈ q, c.isDigit = true ∨ c = '.' := by
  simp only [isQuad, Bool.and_eq_true, decide_eq_true_eq, List.all_eq_true] at h
  obtain ⟨hlen, hall⟩ := h
  constructor
  · by_contra hdot
    rw [List.splitOn_eq_singleton hdot] at hlen
    simp at hlen
  · intro c hc
    rcases mem_of_mem_splitOn '.' hc with rfl | ⟨t, ht, hct⟩
    · exact Or.inr rfl
    · have hoctet := hall t ht
      simp only [isOctet, Bool.and_eq_true, List.all_eq_true] at hoctet
      exact Or.inl (hoctet.2 c hct)

theorem addressValue_mapped {p q : Text} (hp : p.map Char.toLower = "::ffff:".toList) (hq : isQuad q = true) :
    addressValue (p ++ q) = addressValue q := by
  obtain ⟨hdot, hchars⟩ := isQuad_chars hq
  have hcolon : ':' ∉ q := fun hmem => absurd (hchars ':' hmem) (by decide)
  have h6 : parseIPv6 q = none := by
    rw [Option.eq_none_iff_forall_ne_some]
    intro v hv
    obtain ⟨front, last, hcut, -⟩ := parseIPv6_colons hv
    rw [cutLast_eq_none_iff.2 hcolon] at hcut
    cases hcut
  have h4 : parseIPv4 (p ++ q) = none := by
    rw [Option.eq_none_iff_forall_ne_some]
    intro v hv
    match p, hp with
    | c :: p, hp =>
      have hc : c = ':' := eq_colon_of_toLower (List.cons.inj hp).1
      exact absurd ((parseIPv4_chars hv).2 c (by simp)) (by rw [hc]; decide)
  rw [addressValue, addressValue, h4, h6, parseIPv6_mapped hp hcolon hdot, Option.or_none]
  rfl

def nodeBitwise : Bitwise nodeNet where
  value s := (addressValue s).getD 0
  subnet_isSome {addr fam} _ n := by
    simp [nodeNet]
  address_isSome _ := rfl
  subnet_covers {addr fam n rule ip fam'} _ hrule _ := by
    obtain ⟨-, hrule⟩ := Option.ite_none_right_eq_some.1 hrule
    cases hrule
    exact decide_eq_true_iff
  address_covers {addr fam rule ip fam'} _ hrule _ := by
    cases hrule
    exact decide_eq_true_iff
  mapped hp hq := by
    rw [isIP_isSome, isIP_isSome, addressValue_mapped hp hq]
    exact ⟨rfl, rfl⟩
  toInteger_digits {s} _ hs := by
    simp only [nodeNet, hs, if_true]
    split_ifs with hle
    rintro n ⟨⟩
    omega

/-- A slash with nothing behind it is a length of 0, and a blank list is no restriction: both are accepted, and admit an
address that no written entry contains. -/
theorem accepted_lists_admit_anyone :
    (validateAllowlist nodeNet "10.0.0.0/".toList = [] ∧ entriesOf nodeNet "10.0.0.0/".toList = ["10.0.0.0/".toList] ∧
      written nodeNet "10.0.0.0/".toList = none ∧ ipAllowed nodeNet "10.0.0.0/".toList "8.8.8.8".toList = true ∧
      ¬ Faithful nodeBitwise "10.0.0.0/".toList) ∧
    (validateAllowlist nodeNet " ".toList = [] ∧ entriesOf nodeNet " ".toList = [] ∧
      ipAllowed nodeNet " ".toList "8.8.8.8".toList = true ∧ ¬ Faithful nodeBitwise " ".toList) := by
  have hslash : validateAllowlist nodeNet "10.0.0.0/".toList = [] := by decide +kernel
  have hwritten : written nodeNet "10.0.0.0/".toList = none := by decide +kernel
  have hentries : entriesOf nodeNet "10.0.0.0/".toList = ["10.0.0.0/".toList] := by decide +kernel
  have hblank : validateAllowlist nodeNet " ".toList = [] := by decide +kernel
  have hnone : entriesOf nodeNet " ".toList = [] := by decide +kernel
  refine ⟨⟨hslash, hentries, hwritten, by decide +kernel, fun h => ?_⟩, hblank, hnone, by decide +kernel, fun h => ?_⟩
  · have hall := h.accepted_iff.1 hslash "10.0.0.0/".toList (by rw [hentries]; exact List.mem_singleton_self _)
    rw [hwritten] at hall
    cases hall
  · obtain ⟨entry, hm, -⟩ := (h.allowed_iff hblank []).1 (allowed_of_no_entries hnone [])
    rw [hnone] at hm
    exact List.not_mem_nil hm

end Captivo.Access
