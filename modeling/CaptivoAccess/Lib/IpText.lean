import CaptivoAccess.Lib.Dns
import CaptivoAccess.Lib.Separated

/-! Internet addresses as text. An address is a number of 128 bits, where one of version 4
stands for the address that maps it; a zone may stand behind one of version 6. -/

namespace Lib.IpText

open Lib.Dns

def ofDigits (s : Text) : ℕ := s.foldl (fun n c => n * 10 + (c.toNat - 48)) 0

/-- A number up to 255, without a leading zero. -/
def octet (s : Text) : Option ℕ :=
  if s ≠ [] && s.length ≤ 3 && s.all Char.isDigit && (s.length = 1 || s.head? ≠ some '0') && ofDigits s ≤ 255 then
    some (ofDigits s)
  else none

def parseIPv4 (s : Text) : Option ℕ :=
  match (s.splitOn '.').mapM octet with
  | some [a, b, c, d] => some (((a * 256 + b) * 256 + c) * 256 + d)
  | _ => none

def hexValue (c : Char) : Option ℕ :=
  if c.isDigit then some (c.toNat - 48)
  else if 'a' ≤ c && c ≤ 'f' then some (c.toNat - 87)
  else if 'A' ≤ c && c ≤ 'F' then some (c.toNat - 55)
  else none

/-- One to four hexadecimal digits. -/
def hexGroup (s : Text) : Option ℕ :=
  if s ≠ [] && s.length ≤ 4 then (s.mapM hexValue).map (List.foldl (fun n d => n * 16 + d) 0) else none

/-- The words of the groups; the last group may be an address of version 4. -/
def words : List Text → Option (List ℕ)
  | [] => some []
  | [g] => if '.' ∈ g then (parseIPv4 g).map fun v => [v / 65536, v % 65536] else (hexGroup g).map fun w => [w]
  | g :: g' :: gs => (hexGroup g).bind fun w => (words (g' :: gs)).map (w :: ·)

def groups (s : Text) : List Text := if s = [] then [] else s.splitOn ':'

/-- What is before the first `::`, and what is behind it. -/
def ellipsis : Text → Option (Text × Text)
  | [] => none
  | [_] => none
  | c :: d :: s => if c = ':' && d = ':' then some ([], s) else (ellipsis (d :: s)).map fun p => (c :: p.1, p.2)

def ofWords (ws : List ℕ) : ℕ := ws.foldl (fun n w => n * 65536 + w) 0

/-- Eight words, or fewer with `::` for the zeros between them. -/
def parseIPv6 (s : Text) : Option ℕ :=
  match ellipsis s with
  | none => ((words (s.splitOn ':')).filter fun ws => ws.length = 8).map ofWords
  | some (l, r) =>
    match (groups l).mapM hexGroup, words (groups r) with
    | some ls, some rs =>
      if ls.length + rs.length ≤ 7 then some (ofWords (ls ++ List.replicate (8 - ls.length - rs.length) 0 ++ rs)) else none
    | _, _ => none

/-- The address that maps one of version 4. -/
def mapped (v : ℕ) : ℕ := 0xffff * 2 ^ 32 + v

/-- An address with its zone, which is empty where there is none. The first of `.`, `:` and `%` says what it is. -/
def parseAddr (s : Text) : Option (ℕ × Text) :=
  match s.find? fun c => c = '.' || c = ':' || c = '%' with
  | some '.' => (parseIPv4 s).map fun v => (mapped v, [])
  | some ':' =>
    if '%' ∈ s then
      let zone := (s.dropWhile (· ≠ '%')).tail
      if zone = [] then none else (parseIPv6 (s.takeWhile (· ≠ '%'))).map fun v => (v, zone)
    else (parseIPv6 s).map fun v => (v, [])
  | _ => none

example : parseAddr "::ffff:169.254.169.254".toList = some (mapped 0xa9fea9fe, []) := by decide +kernel
example : parseAddr "fe80::1%eth0".toList = some (0xfe80 * 2 ^ 112 + 1, "eth0".toList) := by decide +kernel
example : parseAddr "fe80:::80".toList = none := by decide +kernel

/-- The first bits are the same. -/
def SharesPrefix (length a b : ℕ) : Prop := a / 2 ^ (128 - length) = b / 2 ^ (128 - length)

instance (length a b : ℕ) : Decidable (SharesPrefix length a b) := inferInstanceAs (Decidable (_ = _))

/-! A text cut at the last place where a character stands. -/

def cutLast (c : Char) : Text → Option (Text × Text)
  | [] => none
  | d :: s =>
    match cutLast c s with
    | some (front, last) => some (d :: front, last)
    | none => if d = c then some ([], s) else none

variable {s : Text} {c : Char}

theorem cutLast_eq_none_iff : cutLast c s = none ↔ c ∉ s := by
  induction s with
  | nil => simp [cutLast]
  | cons d s ih =>
    rw [cutLast, List.mem_cons, not_or, ← ih]
    cases cutLast c s with
    | none =>
      by_cases hd : d = c
      · simp [hd]
      · simp [hd, Ne.symm hd]
    | some p => simp

theorem cutLast_append {front last : Text} (h : c ∉ last) :
    cutLast c (front ++ c :: last) = some (front, last) := by
  induction front with
  | nil => simp [cutLast, cutLast_eq_none_iff.2 h]
  | cons d front ih => simp [cutLast, ih]

theorem cutLast_eq_some {s front last : Text} (h : cutLast c s = some (front, last)) :
    s = front ++ c :: last ∧ c ∉ last := by
  induction s generalizing front with
  | nil => cases h
  | cons d s ih =>
    rw [cutLast] at h
    cases hs : cutLast c s with
    | none =>
      rw [hs] at h
      split_ifs at h with hd
      cases h
      exact ⟨by rw [hd, List.nil_append], cutLast_eq_none_iff.1 hs⟩
    | some p =>
      rw [hs] at h
      cases h
      obtain ⟨heq, hlast⟩ := ih hs
      exact ⟨by rw [List.cons_append, ← heq], hlast⟩

/-! What stands in an address. -/

theorem isDigit_of_octet {n : ℕ} (h : octet s = some n) : ∀ c ∈ s, c.isDigit = true := by
  unfold octet at h
  split_ifs at h with hs
  simp only [Bool.and_eq_true, List.all_eq_true] at hs
  exact hs.1.1.2

theorem hexValue_of_isDigit (h : c.isDigit = true) : (hexValue c).isSome = true := by
  simp [hexValue, h]

theorem mem_of_mem_splitOn (sep : Char) (hc : c ∈ s) : c = sep ∨ ∃ t ∈ s.splitOn sep, c ∈ t := by
  refine Lib.Separated.mem_of_mem_join ?_
  rwa [List.intercalate_splitOn]

theorem mapM_eq_some_forall {α β : Type} {f : α → Option β} {xs : List α} {ys : List β} (h : xs.mapM f = some ys) :
    xs.length = ys.length ∧ ∀ x ∈ xs, ∃ y, f x = some y := by
  induction xs generalizing ys with
  | nil =>
    cases h
    exact ⟨rfl, List.forall_mem_nil _⟩
  | cons x xs ih =>
    rw [List.mapM_cons] at h
    obtain ⟨y, hy, hrest⟩ := Option.bind_eq_some_iff.1 h
    obtain ⟨zs, hzs, heq⟩ := Option.bind_eq_some_iff.1 hrest
    cases heq
    obtain ⟨hlen, hall⟩ := ih hzs
    exact ⟨by simp [hlen], List.forall_mem_cons.2 ⟨⟨y, hy⟩, hall⟩⟩

theorem parseIPv4_chars {v : ℕ} (h : parseIPv4 s = some v) :
    '.' ∈ s ∧ ∀ c ∈ s, c.isDigit = true ∨ c = '.' := by
  unfold parseIPv4 at h
  split at h
  · next a b c d hm =>
    obtain ⟨hlen, hall⟩ := mapM_eq_some_forall hm
    constructor
    · by_contra hdot
      rw [List.splitOn_eq_singleton hdot] at hlen
      simp at hlen
    · intro c hc
      rcases mem_of_mem_splitOn '.' hc with rfl | ⟨t, ht, hct⟩
      · exact Or.inr rfl
      · obtain ⟨n, hn⟩ := hall t ht
        exact Or.inl (isDigit_of_octet hn c hct)
  · cases h

theorem hexGroup_chars {w : ℕ} (h : hexGroup s = some w) : ∀ c ∈ s, (hexValue c).isSome = true := by
  unfold hexGroup at h
  split_ifs at h with hs
  obtain ⟨ds, hds, -⟩ := Option.map_eq_some_iff.1 h
  intro c hc
  obtain ⟨d, hd⟩ := (mapM_eq_some_forall hds).2 c hc
  rw [hd]
  rfl

/-- A character of an address. -/
def isAddrChar (c : Char) : Bool := (hexValue c).isSome || c = '.' || c = ':'

theorem words_chars {gs : List Text} {ws : List ℕ} (h : words gs = some ws) :
    (ws.length ≤ gs.length + 1) ∧ ∀ g ∈ gs, ∀ c ∈ g, isAddrChar c = true := by
  have hhex : ∀ {g : Text} {w : ℕ}, hexGroup g = some w → ∀ c ∈ g, isAddrChar c = true :=
    fun hg c hc => by simp [isAddrChar, hexGroup_chars hg c hc]
  induction gs generalizing ws with
  | nil =>
    cases h
    exact ⟨Nat.zero_le _, List.forall_mem_nil _⟩
  | cons g gs ih =>
    cases gs with
    | nil =>
      rw [words] at h
      split_ifs at h with hdot
      · obtain ⟨v, hv, rfl⟩ := Option.map_eq_some_iff.1 h
        refine ⟨le_rfl, List.forall_mem_singleton.2 fun c hc => ?_⟩
        rcases (parseIPv4_chars hv).2 c hc with hd | rfl
        · simp [isAddrChar, hexValue_of_isDigit hd]
        · rfl
      · obtain ⟨w, hw, rfl⟩ := Option.map_eq_some_iff.1 h
        exact ⟨by simp, List.forall_mem_singleton.2 (hhex hw)⟩
    | cons g' gs =>
      rw [words] at h
      obtain ⟨w, hw, hrest⟩ := Option.bind_eq_some_iff.1 h
      obtain ⟨ws', hws, rfl⟩ := Option.map_eq_some_iff.1 hrest
      obtain ⟨hlen, hall⟩ := ih hws
      refine ⟨?_, List.forall_mem_cons.2 ⟨hhex hw, hall⟩⟩
      simp only [List.length_cons] at hlen ⊢
      omega

theorem ellipsis_eq {s l r : Text} (h : ellipsis s = some (l, r)) : s = l ++ ':' :: ':' :: r := by
  induction s using ellipsis.induct generalizing l with
  | case1 => cases h
  | case2 => cases h
  | case3 c d s hcd =>
    simp only [Bool.and_eq_true, decide_eq_true_eq] at hcd
    simp only [ellipsis, hcd, decide_true, Bool.and_self, if_true, Option.some.injEq, Prod.mk.injEq] at h
    rw [← h.1, ← h.2, hcd.1, hcd.2, List.nil_append]
  | case4 c d s hcd ih =>
    rw [ellipsis, if_neg hcd] at h
    obtain ⟨⟨l', r'⟩, hp, heq⟩ := Option.map_eq_some_iff.1 h
    obtain ⟨rfl, rfl⟩ := Prod.mk.inj heq
    rw [List.cons_append, ← ih hp]

theorem groups_chars (h : ∀ g ∈ groups s, ∀ c ∈ g, isAddrChar c = true) : ∀ c ∈ s, isAddrChar c = true := by
  unfold groups at h
  split_ifs at h with hs
  · rw [hs]
    exact List.forall_mem_nil _
  · intro c hc
    rcases mem_of_mem_splitOn ':' hc with rfl | ⟨t, ht, hct⟩
    · rfl
    · exact h t ht c hct

theorem parseIPv6_chars {v : ℕ} (h : parseIPv6 s = some v) : ∀ c ∈ s, isAddrChar c = true := by
  unfold parseIPv6 at h
  split at h
  · next hnone =>
    obtain ⟨ws, hws, -⟩ := Option.map_eq_some_iff.1 h
    obtain ⟨hws, -⟩ := Option.filter_eq_some_iff.1 hws
    intro c hc
    rcases mem_of_mem_splitOn ':' hc with rfl | ⟨t, ht, hct⟩
    · rfl
    · exact (words_chars hws).2 t ht c hct
  · next l r hsome =>
    split at h
    · next ls rs hl hr =>
      have hleft : ∀ g ∈ groups l, ∀ c ∈ g, isAddrChar c = true := by
        intro g hg c hc
        obtain ⟨w, hw⟩ := (mapM_eq_some_forall hl).2 g hg
        simp [isAddrChar, hexGroup_chars hw c hc]
      rw [ellipsis_eq hsome]
      refine List.forall_mem_append.2 ⟨groups_chars hleft, ?_⟩
      exact List.forall_mem_cons.2 ⟨rfl, List.forall_mem_cons.2 ⟨rfl, groups_chars (words_chars hr).2⟩⟩
    · cases h

theorem parseIPv6_colons {v : ℕ} (h : parseIPv6 s = some v) :
    ∃ front last, cutLast ':' s = some (front, last) ∧ ':' ∈ front := by
  unfold parseIPv6 at h
  split at h
  · -- there are seven groups at least
    obtain ⟨ws, hws, -⟩ := Option.map_eq_some_iff.1 h
    obtain ⟨hws, hlen⟩ := Option.filter_eq_some_iff.1 hws
    have hgroups := (words_chars hws).1
    rw [of_decide_eq_true hlen] at hgroups
    cases hcut : cutLast ':' s with
    | none =>
      rw [List.splitOn_eq_singleton (cutLast_eq_none_iff.1 hcut)] at hgroups
      simp at hgroups
    | some p =>
      obtain ⟨front, last⟩ := p
      refine ⟨front, last, rfl, ?_⟩
      by_contra hfront
      obtain ⟨rfl, hlast⟩ := cutLast_eq_some hcut
      rw [List.splitOn_append_cons_self_of_not_mem hfront, List.splitOn_eq_singleton hlast] at hgroups
      simp at hgroups
  · next l r hsome =>
    rw [ellipsis_eq hsome]
    cases hcut : cutLast ':' r with
    | none =>
      refine ⟨l ++ [':'], r, ?_, by simp⟩
      rw [← cutLast_append (cutLast_eq_none_iff.1 hcut), List.append_assoc, List.singleton_append]
    | some p =>
      obtain ⟨front, last⟩ := p
      obtain ⟨rfl, hlast⟩ := cutLast_eq_some hcut
      refine ⟨l ++ ':' :: ':' :: front, last, ?_, by simp⟩
      rw [← cutLast_append hlast, List.append_assoc, List.cons_append, List.cons_append]

theorem takeWhile_cons_tail (h : c ∈ s) :
    s.takeWhile (· ≠ c) ++ c :: (s.dropWhile (· ≠ c)).tail = s := by
  induction s with
  | nil => cases h
  | cons d s ih =>
    by_cases hd : d = c
    · subst hd
      rw [List.takeWhile_cons_of_neg (by simp), List.dropWhile_cons_of_neg (by simp), List.nil_append, List.tail_cons]
    · have hc : c ∈ s := (List.mem_cons.1 h).resolve_left fun heq => hd heq.symm
      rw [List.takeWhile_cons_of_pos (by simpa using hd), List.dropWhile_cons_of_pos (by simpa using hd), List.cons_append, ih hc]

theorem parseAddr_cases {s zone : Text} {ip : ℕ} (h : parseAddr s = some (ip, zone)) :
    (zone = [] ∧ ∃ v, parseIPv4 s = some v) ∨ (zone = [] ∧ parseIPv6 s = some ip) ∨
      ∃ front, s = front ++ '%' :: zone ∧ zone ≠ [] ∧ parseIPv6 front = some ip := by
  unfold parseAddr at h
  split at h
  · obtain ⟨v, hv, heq⟩ := Option.map_eq_some_iff.1 h
    cases heq
    exact Or.inl ⟨rfl, v, hv⟩
  · by_cases hpercent : '%' ∈ s
    · -- the zone is what follows the first percent sign
      rw [if_pos hpercent] at h
      dsimp only at h
      split_ifs at h with hzone
      obtain ⟨v, hv, heq⟩ := Option.map_eq_some_iff.1 h
      obtain ⟨rfl, rfl⟩ := Prod.mk.inj heq
      exact Or.inr (Or.inr ⟨_, (takeWhile_cons_tail hpercent).symm, hzone, hv⟩)
    · rw [if_neg hpercent] at h
      obtain ⟨v, hv, heq⟩ := Option.map_eq_some_iff.1 h
      cases heq
      exact Or.inr (Or.inl ⟨rfl, hv⟩)
  · cases h

/-! The address of version 6 that maps one of version 4. -/

theorem toLower_eq {c d : Char} (h : c.toLower = d) : c = d ∨ (65 ≤ c.toNat ∧ c.toNat ≤ 90 ∧ d.toNat = c.toNat + 32) := by
  unfold Char.toLower at h
  split_ifs at h with hc
  · refine Or.inr ?_
    have hlo := UInt32.le_iff_toNat_le.1 hc.1
    have hhi := UInt32.le_iff_toNat_le.1 hc.2
    have hval := congrArg (fun d : Char => d.val.toNat) h
    simp only [UInt32.toNat_add] at hval
    change 65 ≤ c.val.toNat at hlo
    change c.val.toNat ≤ 90 at hhi
    change (c.val.toNat + 32) % 4294967296 = d.val.toNat at hval
    rw [Nat.mod_eq_of_lt (by omega)] at hval
    exact ⟨hlo, hhi, hval.symm⟩
  · exact Or.inl h

theorem eq_colon_of_toLower (h : c.toLower = ':') : c = ':' := by
  rcases toLower_eq h with rfl | ⟨hlo, -, heq⟩
  · rfl
  · have : ':'.toNat = 58 := rfl
    omega

theorem hexValue_of_toLower (h : c.toLower = 'f') : hexValue c = some 15 := by
  rcases toLower_eq h with rfl | ⟨-, -, heq⟩
  · decide
  · have hc : c = 'F' := by
      rw [← Char.toNat_inj, show 'F'.toNat = 70 from rfl]
      have : 'f'.toNat = 102 := rfl
      omega
    rw [hc]
    decide

theorem parseIPv6_mapped {p q : Text} (hp : p.map Char.toLower = "::ffff:".toList) (hq : ':' ∉ q) (hdot : '.' ∈ q) :
    parseIPv6 (p ++ q) = (parseIPv4 q).map mapped := by
  have hlen : p.length = 7 := by simpa using congrArg List.length hp
  match p, hlen, hp with
  | [c1, c2, f1, f2, f3, f4, c3], _, hp =>
    simp only [List.map_cons, List.map_nil, String.reduceToList, List.cons.injEq, and_true] at hp
    obtain ⟨h1, h2, h3, h4, h5, h6, h7⟩ := hp
    rw [eq_colon_of_toLower h1, eq_colon_of_toLower h2, eq_colon_of_toLower h7]
    have hf : hexGroup [f1, f2, f3, f4] = some 0xffff := by
      simp [hexGroup, hexValue_of_toLower h3, hexValue_of_toLower h4, hexValue_of_toLower h5, hexValue_of_toLower h6]
    have hcolon : ':' ∉ [f1, f2, f3, f4] := by
      intro hmem
      exact absurd (hexGroup_chars hf ':' hmem) (by decide)
    have hgroups : groups (f1 :: f2 :: f3 :: f4 :: ':' :: q) = [[f1, f2, f3, f4], q] := by
      have hsplit := List.splitOn_append_cons_self_of_not_mem hcolon q
      rw [List.splitOn_eq_singleton hq] at hsplit
      exact hsplit
    have hwords : words [[f1, f2, f3, f4], q] = (parseIPv4 q).map fun v => [0xffff, v / 65536, v % 65536] := by
      simp [words, hf, hdot, Function.comp_def]
    have hellipsis : ellipsis (':' :: ':' :: f1 :: f2 :: f3 :: f4 :: ':' :: q) = some ([], f1 :: f2 :: f3 :: f4 :: ':' :: q) := by
      simp [ellipsis]
    simp only [List.cons_append, List.nil_append, parseIPv6, hellipsis, hgroups, hwords]
    cases parseIPv4 q with
    | none => simp [groups]
    | some v =>
      simp only [groups, Option.map_some]
      simp [ofWords, mapped, List.replicate]
      omega

end Lib.IpText
