import Mathlib
import CaptivoAccess.Lib.IpText
import CaptivoAccess.Lib.Utf8Slice

/-! Distinguished names as text (RFC 4514): what a name denotes, and that names with the same
text, but for the case of letters, denote the same entry. -/

namespace Lib.DistinguishedName

open Lib.Dns Lib.Utf8 Lib.IpText

/-! Symbols. -/

/-- A character as it stands, a character behind a backslash, or the two digits of an octet behind one. -/
inductive Symbol where
  | plain (c : Char)
  | escaped (c : Char)
  | octet (b : UInt8)
  deriving DecidableEq

/-- What may stand behind a backslash as itself. -/
def isSpecial (c : Char) : Bool := c ∈ ['"', '+', ',', ';', '<', '>', ' ', '#', '=', '\\']

def hexPair (h l : Char) : Option UInt8 := do
  let h ← hexValue h
  let l ← hexValue l
  return UInt8.ofNat (16 * h + l)

def symbols : Text → Option (List Symbol)
  | [] => some []
  | c :: t =>
    if c ≠ '\\' then (symbols t).map (.plain c :: ·)
    else match t with
      | [] => none
      | d :: t =>
        if isSpecial d then (symbols t).map (.escaped d :: ·)
        else match t with
          | [] => none
          | e :: t => (hexPair d e).bind fun b => (symbols t).map (.octet b :: ·)

def Symbol.bytes : Symbol → Bytes
  | .plain c => encodeRune c.toNat
  | .escaped c => encodeRune c.toNat
  | .octet b => [b]

/-! Names. -/

inductive Value where
  | string (t : Text)
  | encoded (octets : Bytes)
  deriving DecidableEq

structure Attribute where
  type : Text
  value : Value
  deriving DecidableEq

/-- `descr`. -/
def isDescr : Text → Bool
  | [] => false
  | c :: t => c.isAlpha && t.all fun d => d.isAlphanum || d = '-'

def isNumber (t : Text) : Bool := t ≠ [] && t.all Char.isDigit && (t.length = 1 || t.head? ≠ some '0')

/-- `numericoid`. -/
def isNumericOid (t : Text) : Bool := 2 ≤ (t.splitOn '.').length && (t.splitOn '.').all isNumber

def plainChar : Symbol → Option Char
  | .plain c => some c
  | _ => none

def readType (s : List Symbol) : Option Text := (s.mapM plainChar).filter fun t => isDescr t || isNumericOid t

/-- The digits of a `hexstring`. -/
def readDigits : List Symbol → Option Bytes
  | [] => some []
  | .plain h :: .plain l :: s => (hexPair h l).bind fun b => (readDigits s).map (b :: ·)
  | _ => none

/-- `string`: what must be escaped is escaped. -/
def isString (s : List Symbol) : Bool :=
  s.all (fun x => x ∉ ['"', ';', '<', '>', '\x00'].map Symbol.plain) && s.head? ∉ [some (.plain ' '), some (.plain '#')] &&
    s.getLast? ≠ some (.plain ' ')

def octets (s : List Symbol) : Bytes := s.flatMap Symbol.bytes

/-- The text that the octets are the UTF-8 of. -/
def decoded (s : List Symbol) : Option Text := (some (text (octets s))).filter fun t => encodeText t = octets s

def readValue : List Symbol → Option Value
  | .plain '#' :: digits => ((readDigits digits).filter (· ≠ [])).map .encoded
  | s => if isString s then (decoded s).map .string else none

def readAttribute (s : List Symbol) : Option Attribute :=
  if .plain '=' ∈ s then do
    let type ← readType (s.takeWhile (· ≠ .plain '='))
    let value ← readValue (s.dropWhile (· ≠ .plain '=')).tail
    return ⟨type, value⟩
  else none

/-- The parts of a name from the entry up to the root, each a set of attributes. -/
def readName (t : Text) : Option (List (List Attribute)) :=
  (symbols t).bind fun s =>
    if s = [] then some [] else (s.splitOn (.plain ',')).mapM fun part => (part.splitOn (.plain '+')).mapM readAttribute

example : readName "CN=a\\,b,DC=x".toList =
    some [[⟨"CN".toList, .string "a,b".toList⟩], [⟨"DC".toList, .string "x".toList⟩]] := by decide +kernel

/-! Case. -/

/-- Case folding, character by character. -/
structure Folding where
  fold : Char → Text
  ne_nil : ∀ c, fold c ≠ []
  again : ∀ c, (fold c).flatMap fold = fold c
  ascii : ∀ c, c.toNat < 128 → fold c = [c.toLower]
  beyond : ∀ c, 128 ≤ c.toNat → ∀ d ∈ fold c, 128 ≤ d.toNat ∨ d.isLower = true

def Folding.text (f : Folding) (t : Text) : Text := t.flatMap f.fold

def Value.folded (f : Folding) : Value → Value
  | .string t => .string (f.text t)
  | .encoded bs => .encoded bs

def Attribute.folded (f : Folding) (a : Attribute) : Attribute := ⟨f.text a.type, a.value.folded f⟩

/-- The two denote the same entry: part for part they have the same attributes. -/
def SameEntry (f : Folding) (e e' : List (List Attribute)) : Prop :=
  List.Forall₂ (fun part part' => ∀ a, a ∈ part.map (Attribute.folded f) ↔ a ∈ part'.map (Attribute.folded f)) e e'

def Symbol.folded (f : Folding) : Symbol → List Symbol
  | .plain c => (f.fold c).map .plain
  | s => [s]

/-- An ASCII character that is no letter. -/
def Caseless (c : Char) : Prop := c.toNat < 128 ∧ c.isAlpha = false

instance (c : Char) : Decidable (Caseless c) := inferInstanceAs (Decidable (_ ∧ _))

theorem isAlpha_of_isUpper {c : Char} (h : 65 ≤ c.toNat ∧ c.toNat ≤ 90) : c.isAlpha = true := by
  rw [Char.isAlpha, Char.isUpper, Bool.or_eq_true, decide_eq_true_eq]
  exact Or.inl h

namespace Folding

variable (f : Folding) {c p : Char}

theorem fold_caseless (h : Caseless p) : f.fold p = [p] := by
  rw [f.ascii p h.1]
  rcases toLower_eq (rfl : p.toLower = p.toLower) with heq | ⟨hlow, hhigh, -⟩
  · rw [← heq]
  · exact absurd (isAlpha_of_isUpper ⟨hlow, hhigh⟩) (Bool.eq_false_iff.1 h.2)

theorem eq_of_mem_fold (h : Caseless p) (hc : p ∈ f.fold c) : c = p := by
  rcases Nat.lt_or_ge c.toNat 128 with hascii | hbeyond
  · rw [f.ascii c hascii, List.mem_singleton] at hc
    rcases toLower_eq hc.symm with heq | ⟨hlow, hhigh, hp⟩
    · exact heq
    · have hlower : p.isLower = true := by
        rw [Char.isLower, Bool.and_eq_true, decide_eq_true_eq, decide_eq_true_eq]
        exact ⟨show 97 ≤ p.toNat by omega, show p.toNat ≤ 122 by omega⟩
      rw [Caseless, Char.isAlpha, hlower, Bool.or_true] at h
      cases h.2
  · rcases f.beyond c hbeyond p hc with hp | hp
    · exact absurd h.1 (Nat.not_lt.2 hp)
    · rw [Caseless, Char.isAlpha, hp, Bool.or_true] at h
      cases h.2

theorem text_append (s t : Text) : f.text (s ++ t) = f.text s ++ f.text t := List.flatMap_append

theorem text_text (t : Text) : f.text (f.text t) = f.text t := by
  induction t with
  | nil => rfl
  | cons c t ih =>
    change f.text (f.fold c ++ f.text t) = f.fold c ++ f.text t
    rw [f.text_append, ih]
    exact congrArg (· ++ _) (f.again c)

end Folding

/-! Reading the folded text. -/

section Symbols

variable (f : Folding)

theorem symbols_plain_cons {c : Char} (hc : c ≠ '\\') (t : Text) : symbols (c :: t) = (symbols t).map (.plain c :: ·) := by
  rw [symbols.eq_def]
  exact if_pos hc

theorem symbols_escaped_cons {d : Char} (hd : isSpecial d = true) (t : Text) :
    symbols ('\\' :: d :: t) = (symbols t).map (.escaped d :: ·) := by
  rw [symbols.eq_def]
  simp [hd]

theorem symbols_octet_cons {d e : Char} (hd : isSpecial d = false) (t : Text) :
    symbols ('\\' :: d :: e :: t) = (hexPair d e).bind fun b => (symbols t).map (.octet b :: ·) := by
  rw [symbols.eq_def]
  simp [hd]

/-- The symbols that a text spells, one after the other. -/
inductive Spells : Text → List Symbol → Prop where
  | nil : Spells [] []
  | plain {c : Char} {t : Text} {s : List Symbol} (hc : c ≠ '\\') (ht : Spells t s) : Spells (c :: t) (.plain c :: s)
  | escaped {d : Char} {t : Text} {s : List Symbol} (hd : isSpecial d = true) (ht : Spells t s) :
    Spells ('\\' :: d :: t) (.escaped d :: s)
  | octet {d e : Char} {b : UInt8} {t : Text} {s : List Symbol} (hb : hexPair d e = some b) (ht : Spells t s) :
    Spells ('\\' :: d :: e :: t) (.octet b :: s)

theorem spells_of_symbols {t : Text} {s : List Symbol} (h : symbols t = some s) : Spells t s := by
  induction t using symbols.induct generalizing s with
  | case1 =>
    cases h
    exact .nil
  | case2 c t hc ih =>
    rw [symbols_plain_cons hc] at h
    obtain ⟨s, hs, rfl⟩ := Option.map_eq_some_iff.1 h
    exact .plain hc (ih hs)
  | case3 c hc =>
    rw [not_ne_iff.1 hc] at h
    cases h
  | case4 c hc d t hd ih =>
    rw [not_ne_iff.1 hc, symbols_escaped_cons hd] at h
    obtain ⟨s, hs, rfl⟩ := Option.map_eq_some_iff.1 h
    rw [not_ne_iff.1 hc]
    exact .escaped hd (ih hs)
  | case5 c hc d hd =>
    rw [not_ne_iff.1 hc, symbols.eq_def] at h
    simp [hd] at h
  | case6 c hc d hd e t ih =>
    rw [not_ne_iff.1 hc, symbols_octet_cons (Bool.not_eq_true _ ▸ hd)] at h
    obtain ⟨b, hb, h⟩ := Option.bind_eq_some_iff.1 h
    obtain ⟨s, hs, rfl⟩ := Option.map_eq_some_iff.1 h
    rw [not_ne_iff.1 hc]
    exact .octet hb (ih hs)

theorem symbols_plain (t u : Text) (h : '\\' ∉ t) : symbols (t ++ u) = (symbols u).map (t.map .plain ++ ·) := by
  induction t with
  | nil => simp
  | cons c t ih =>
    rw [List.mem_cons, not_or] at h
    rw [List.cons_append, symbols_plain_cons (Ne.symm h.1), ih h.2, Option.map_map]
    rfl

theorem hexValue_toLower {c : Char} {n : ℕ} (h : hexValue c = some n) :
    c.toNat < 128 ∧ hexValue c.toLower = some n ∧ isSpecial c.toLower = false := by
  have hspecial : ∀ d, hexValue d = some n → isSpecial d = false := by
    intro d hd
    rw [isSpecial, decide_eq_false_iff_not]
    intro hmem
    have hnone : ∀ d ∈ ['"', '+', ',', ';', '<', '>', ' ', '#', '=', '\\'], hexValue d = none :=
      List.forall_iff_forall_mem.1 (by decide)
    rw [hnone d hmem] at hd
    cases hd
  have hlower : hexValue c.toLower = some n := by
    rcases toLower_eq (rfl : c.toLower = c.toLower) with heq | ⟨hlow, hhigh, hd⟩
    · rwa [← heq]
    · -- only the capital letters up to F are digits
      generalize c.toLower = d at hd
      have hupper : c.toNat ≤ 70 ∧ n = c.toNat - 55 := by
        rw [hexValue] at h
        split_ifs at h with hdigit hsmall hcapital
        · rw [Char.isDigit, Bool.and_eq_true, decide_eq_true_eq, decide_eq_true_eq] at hdigit
          have hle : c.toNat ≤ 57 := hdigit.2
          omega
        · rw [Bool.and_eq_true, decide_eq_true_eq, decide_eq_true_eq] at hsmall
          have hle : 97 ≤ c.toNat := hsmall.1
          omega
        · rw [Bool.and_eq_true, decide_eq_true_eq, decide_eq_true_eq] at hcapital
          exact ⟨hcapital.2, (Option.some.inj h).symm⟩
      have hnodigit : ¬ d.isDigit = true := by
        rw [Char.isDigit, Bool.and_eq_true, decide_eq_true_eq, decide_eq_true_eq]
        intro hdigit
        have hle : d.toNat ≤ 57 := hdigit.2
        omega
      have hsmall : ('a' ≤ d && d ≤ 'f') = true := by
        rw [Bool.and_eq_true, decide_eq_true_eq, decide_eq_true_eq]
        exact ⟨show 97 ≤ d.toNat by omega, show d.toNat ≤ 102 by omega⟩
      rw [hexValue, if_neg hnodigit, if_pos hsmall]
      congr 1
      omega
  refine ⟨?_, hlower, hspecial _ hlower⟩
  rw [hexValue] at h
  split_ifs at h with hdigit hsmall hcapital
  · rw [Char.isDigit, Bool.and_eq_true, decide_eq_true_eq, decide_eq_true_eq] at hdigit
    exact Nat.lt_of_le_of_lt (show c.toNat ≤ 57 from hdigit.2) (by decide)
  · rw [Bool.and_eq_true, decide_eq_true_eq, decide_eq_true_eq] at hsmall
    exact Nat.lt_of_le_of_lt (show c.toNat ≤ 102 from hsmall.2) (by decide)
  · rw [Bool.and_eq_true, decide_eq_true_eq, decide_eq_true_eq] at hcapital
    exact Nat.lt_of_le_of_lt (show c.toNat ≤ 70 from hcapital.2) (by decide)

theorem hexPair_fold {h l : Char} {b : UInt8} (hb : hexPair h l = some b) :
    f.fold h = [h.toLower] ∧ f.fold l = [l.toLower] ∧ hexPair h.toLower l.toLower = some b ∧ isSpecial h.toLower = false := by
  simp only [hexPair, Option.bind_eq_bind, Option.bind_eq_some_iff, Option.pure_def, Option.some.injEq] at hb ⊢
  obtain ⟨m, hm, n, hn, rfl⟩ := hb
  obtain ⟨hascii, hlower, hspecial⟩ := hexValue_toLower hm
  obtain ⟨hascii', hlower', -⟩ := hexValue_toLower hn
  exact ⟨f.ascii h hascii, f.ascii l hascii', ⟨m, hlower, n, hlower', rfl⟩, hspecial⟩

theorem isSpecial_caseless {d : Char} (h : isSpecial d = true) : Caseless d := by
  have hall : ∀ d ∈ ['"', '+', ',', ';', '<', '>', ' ', '#', '=', '\\'], Caseless d := List.forall_iff_forall_mem.1 (by decide)
  exact hall d (of_decide_eq_true h)

theorem Spells.symbols_fold {t : Text} {s : List Symbol} (h : Spells t s) :
    symbols (f.text t) = some (s.flatMap (Symbol.folded f)) := by
  have hback : f.fold '\\' = ['\\'] := f.fold_caseless (by decide)
  induction h with
  | nil => rfl
  | @plain c t s hc _ ih =>
    have hfree : '\\' ∉ f.fold c := fun hmem => hc (f.eq_of_mem_fold (by decide) hmem)
    change symbols (f.fold c ++ f.text t) = _
    rw [symbols_plain _ _ hfree, ih]
    rfl
  | @escaped d t s hd _ ih =>
    change symbols (f.fold '\\' ++ (f.fold d ++ f.text t)) = _
    rw [hback, f.fold_caseless (isSpecial_caseless hd)]
    change symbols ('\\' :: d :: f.text t) = _
    rw [symbols_escaped_cons hd, ih]
    rfl
  | @octet d e b t s hb _ ih =>
    obtain ⟨hfd, hfe, hpair, hspecial⟩ := hexPair_fold f hb
    change symbols (f.fold '\\' ++ (f.fold d ++ (f.fold e ++ f.text t))) = _
    rw [hback, hfd, hfe]
    change symbols ('\\' :: d.toLower :: e.toLower :: f.text t) = _
    rw [symbols_octet_cons hspecial, hpair, ih]
    rfl

end Symbols

/-! Values. -/

section Values

variable (f : Folding)

theorem octets_append (s s' : List Symbol) : octets (s ++ s') = octets s ++ octets s' := List.flatMap_append

theorem octets_plain (t : Text) : octets (t.map .plain) = encodeText t := List.flatMap_map _ _ _

theorem Symbol.bytes_ne_nil (x : Symbol) : x.bytes ≠ [] := by
  cases x with
  | octet b => exact List.cons_ne_nil _ _
  | plain c | escaped c =>
    obtain ⟨b, fs, hb, -⟩ := encodeRune_cons c.toNat
    rw [Symbol.bytes, hb]
    exact List.cons_ne_nil _ _

theorem not_follows_of_encodeRune {c : Char} {b : UInt8} {fs : Bytes} (h : encodeRune c.toNat = b :: fs) : ¬ Follows b := by
  intro hb
  have hwhole := decodeRune_encodeRune c []
  rw [List.append_nil, h, decodeRune_follows hb, Option.some.injEq, Prod.mk.injEq] at hwhole
  rw [← hwhole.1, hwhole.2] at h
  cases h

theorem octets_follow {v : List Symbol} {fs r : Bytes} (hfs : ∀ b ∈ fs, Follows b) (h : octets v = fs ++ r) :
    ∃ w, v = fs.map .octet ++ w ∧ octets w = r := by
  induction fs generalizing v with
  | nil => exact ⟨v, rfl, h⟩
  | cons b fs ih =>
    obtain ⟨hb, htail⟩ := List.forall_mem_cons.1 hfs
    have hchar : ∀ (c : Char) (w : List Symbol), encodeRune c.toNat ++ octets w ≠ (b :: fs) ++ r := by
      intro c w heq
      obtain ⟨b', fs', hc, -⟩ := encodeRune_cons c.toNat
      rw [hc, List.cons_append, List.cons_append, List.cons.injEq] at heq
      exact not_follows_of_encodeRune hc (heq.1 ▸ hb)
    cases v with
    | nil => cases h
    | cons x v =>
      cases x with
      | plain c => exact absurd h (hchar c v)
      | escaped c => exact absurd h (hchar c v)
      | octet b' =>
        obtain ⟨rfl, hrest⟩ := List.cons.inj h
        obtain ⟨w, rfl, hw⟩ := ih htail hrest
        exact ⟨w, rfl, hw⟩

theorem encodeRune_inj {c d : Char} {r r' : Bytes} (h : encodeRune c.toNat ++ r = encodeRune d.toNat ++ r') : c = d ∧ r = r' := by
  have hdecode := decodeRune_encodeRune c r
  rw [h, decodeRune_encodeRune, Option.some.injEq, Prod.mk.injEq] at hdecode
  exact ⟨Char.toNat_inj.1 hdecode.1.symm, hdecode.2.symm⟩

theorem octets_fold {v : List Symbol} {t : Text} (h : octets v = encodeText t) :
    ∃ u, octets (v.flatMap (Symbol.folded f)) = encodeText u ∧ f.text u = f.text t := by
  induction t generalizing v with
  | nil =>
    cases v with
    | nil => exact ⟨[], rfl, rfl⟩
    | cons x v => exact absurd (List.append_eq_nil_iff.1 h).1 x.bytes_ne_nil
  | cons c t ih =>
    cases v with
    | nil =>
      obtain ⟨b, fs, hc, -⟩ := encodeRune_cons c.toNat
      rw [encodeText_cons, hc] at h
      cases h
    | cons x v =>
      rw [encodeText_cons] at h
      rw [List.flatMap_cons, octets_append]
      cases x with
      | plain d =>
        obtain ⟨rfl, hv⟩ := encodeRune_inj h
        obtain ⟨u, hu, hfold⟩ := ih hv
        refine ⟨f.fold d ++ u, ?_, ?_⟩
        · rw [hu, encodeText_append]
          exact congrArg (· ++ _) (octets_plain (f.fold d))
        · rw [f.text_append, hfold]
          exact congrArg (· ++ _) (f.again d)
      | escaped d =>
        obtain ⟨rfl, hv⟩ := encodeRune_inj h
        obtain ⟨u, hu, hfold⟩ := ih hv
        refine ⟨d :: u, ?_, ?_⟩
        · rw [hu, encodeText_cons]
          exact congrArg (· ++ _) (List.append_nil _)
        · exact congrArg (f.fold d ++ ·) hfold
      | octet b =>
        obtain ⟨b', fs, hc, hfs⟩ := encodeRune_cons c.toNat
        rw [hc] at h
        obtain ⟨rfl, hrest⟩ := List.cons.inj h
        obtain ⟨w, rfl, hw⟩ := octets_follow hfs hrest
        obtain ⟨u, hu, hfold⟩ := ih hw
        have hoctets : ∀ bs : Bytes, octets ((bs.map Symbol.octet).flatMap (Symbol.folded f)) = bs := by
          intro bs
          induction bs with
          | nil => rfl
          | cons b bs ih => exact congrArg (b :: ·) ih
        refine ⟨c :: u, ?_, congrArg (f.fold c ++ ·) hfold⟩
        rw [List.flatMap_append, octets_append, hoctets, hu, encodeText_cons, hc]
        rfl

theorem decoded_fold {v w : List Symbol} {t u : Text} (ht : decoded v = some t) (hu : decoded w = some u)
    (h : v.flatMap (Symbol.folded f) = w.flatMap (Symbol.folded f)) : f.text t = f.text u := by
  have hread : ∀ {v t}, decoded v = some t → octets v = encodeText t := by
    intro v t ht
    obtain ⟨heq, henc⟩ := Option.filter_eq_some_iff.1 ht
    rw [← Option.some.inj heq]
    exact (of_decide_eq_true (Option.some.inj heq ▸ henc)).symm
  obtain ⟨t', hvt, htext⟩ := octets_fold f (hread ht)
  obtain ⟨u', hwu, hutext⟩ := octets_fold f (hread hu)
  have heq : t' = u' := by rw [← text_encodeText t', ← hvt, h, hwu, text_encodeText]
  rw [← htext, heq, hutext]

theorem readDigits_fold {s : List Symbol} {bs : Bytes} (h : readDigits s = some bs) :
    readDigits (s.flatMap (Symbol.folded f)) = some bs := by
  induction s using readDigits.induct generalizing bs with
  | case1 => exact h
  | case2 hi lo s ih =>
    rw [readDigits] at h
    obtain ⟨b, hb, h⟩ := Option.bind_eq_some_iff.1 h
    obtain ⟨bs, hbs, rfl⟩ := Option.map_eq_some_iff.1 h
    obtain ⟨hhi, hlo, hpair, -⟩ := hexPair_fold f hb
    rw [List.flatMap_cons, List.flatMap_cons, Symbol.folded, Symbol.folded, hhi, hlo]
    change readDigits (.plain hi.toLower :: .plain lo.toLower :: s.flatMap (Symbol.folded f)) = _
    rw [readDigits, hpair, ih hbs]
    rfl
  | case3 s hnil hpair =>
    rw [readDigits] at h
    · cases h
    · exact hnil
    · exact hpair

theorem folded_sep {p : Char} (hp : Caseless p) : Symbol.folded f (.plain p) = [.plain p] := by
  rw [Symbol.folded, f.fold_caseless hp]
  rfl

theorem eq_of_mem_folded {p : Char} (hp : Caseless p) (x : Symbol) (h : .plain p ∈ Symbol.folded f x) : x = .plain p := by
  cases x with
  | plain c =>
    obtain ⟨d, hd, heq⟩ := List.mem_map.1 h
    rw [Symbol.plain.inj heq] at hd
    exact congrArg Symbol.plain (f.eq_of_mem_fold hp hd)
  | escaped c => exact (List.mem_singleton.1 h).symm
  | octet b => exact (List.mem_singleton.1 h).symm

theorem folded_ne_nil (x : Symbol) : Symbol.folded f x ≠ [] := by
  cases x with
  | plain c => exact fun h => f.ne_nil c (List.map_eq_nil_iff.1 h)
  | escaped c => exact List.cons_ne_nil _ _
  | octet b => exact List.cons_ne_nil _ _

theorem head_of_folded {p : Char} (hp : Caseless p) {v r : List Symbol} (h : v.flatMap (Symbol.folded f) = .plain p :: r) :
    ∃ w, v = .plain p :: w ∧ w.flatMap (Symbol.folded f) = r := by
  cases v with
  | nil => cases h
  | cons x v =>
    have hmem : Symbol.plain p ∈ Symbol.folded f x := by
      obtain ⟨y, ys, hx⟩ := List.exists_cons_of_ne_nil (folded_ne_nil f x)
      rw [List.flatMap_cons, hx, List.cons_append, List.cons.injEq] at h
      rw [hx, h.1]
      exact List.mem_cons_self
    obtain rfl := eq_of_mem_folded f hp x hmem
    rw [List.flatMap_cons, folded_sep f hp, List.singleton_append, List.cons.injEq] at h
    exact ⟨v, rfl, h.2⟩

theorem readValue_fold {v w : List Symbol} {x y : Value} (hx : readValue v = some x) (hy : readValue w = some y)
    (h : v.flatMap (Symbol.folded f) = w.flatMap (Symbol.folded f)) : x.folded f = y.folded f := by
  have hsharp : Caseless '#' := by decide
  have hencoded : ∀ {digits x}, readValue (.plain '#' :: digits) = some x →
      ∃ bs, readDigits (digits.flatMap (Symbol.folded f)) = some bs ∧ x = .encoded bs := by
    intro digits x hx
    rw [readValue] at hx
    obtain ⟨bs, hbs, rfl⟩ := Option.map_eq_some_iff.1 hx
    exact ⟨bs, readDigits_fold f (Option.filter_eq_some_iff.1 hbs).1, rfl⟩
  by_cases hv : ∃ digits, v = .plain '#' :: digits
  · obtain ⟨digits, rfl⟩ := hv
    rw [List.flatMap_cons, folded_sep f hsharp, List.singleton_append] at h
    obtain ⟨digits', rfl, hdigits⟩ := head_of_folded f hsharp h.symm
    obtain ⟨bs, hbs, rfl⟩ := hencoded hx
    obtain ⟨bs', hbs', rfl⟩ := hencoded hy
    rw [hdigits, hbs, Option.some.injEq] at hbs'
    rw [hbs']
  · have hw : ¬ ∃ digits, w = .plain '#' :: digits := by
      rintro ⟨digits, rfl⟩
      rw [List.flatMap_cons, folded_sep f hsharp, List.singleton_append] at h
      obtain ⟨digits', rfl, -⟩ := head_of_folded f hsharp h
      exact hv ⟨digits', rfl⟩
    have hstring : ∀ {v x}, (¬ ∃ digits, v = .plain '#' :: digits) → readValue v = some x → ∃ t, decoded v = some t ∧ x = .string t := by
      intro v x hv hx
      rw [readValue] at hx
      · split_ifs at hx
        obtain ⟨t, ht, rfl⟩ := Option.map_eq_some_iff.1 hx
        exact ⟨t, ht, rfl⟩
      · exact fun digits hd => hv ⟨digits, hd⟩
    obtain ⟨t, ht, rfl⟩ := hstring hv hx
    obtain ⟨u, hu, rfl⟩ := hstring hw hy
    exact congrArg Value.string (decoded_fold f ht hu h)

end Values

/-! Names. -/

section Names

variable (f : Folding)

theorem eq_map_of_mapM_plainChar {s : List Symbol} {t : Text} (h : s.mapM plainChar = some t) : s = t.map .plain := by
  induction s generalizing t with
  | nil =>
    cases h
    rfl
  | cons x s ih =>
    rw [List.mapM_cons] at h
    obtain ⟨c, hc, h⟩ := Option.bind_eq_some_iff.1 h
    obtain ⟨t, ht, h⟩ := Option.bind_eq_some_iff.1 h
    cases h
    cases x with
    | plain d =>
      cases hc
      rw [ih ht]
      rfl
    | escaped d => cases hc
    | octet b => cases hc

theorem readType_fold {s s' : List Symbol} {t t' : Text} (ht : readType s = some t) (ht' : readType s' = some t')
    (h : s.flatMap (Symbol.folded f) = s'.flatMap (Symbol.folded f)) : f.text t = f.text t' := by
  have hplain : ∀ t : Text, (t.map Symbol.plain).flatMap (Symbol.folded f) = (f.text t).map .plain := by
    intro t
    rw [List.flatMap_map, Folding.text, List.map_flatMap]
    rfl
  rw [eq_map_of_mapM_plainChar (Option.filter_eq_some_iff.1 ht).1, eq_map_of_mapM_plainChar (Option.filter_eq_some_iff.1 ht').1,
    hplain, hplain] at h
  exact List.map_injective_iff.2 (fun _ _ => Symbol.plain.inj) h

theorem readAttribute_fold {s s' : List Symbol} {a a' : Attribute} (ha : readAttribute s = some a) (ha' : readAttribute s' = some a')
    (h : s.flatMap (Symbol.folded f) = s'.flatMap (Symbol.folded f)) : a.folded f = a'.folded f := by
  have hsep : Symbol.folded f (.plain '=') = [.plain '='] := folded_sep f (by decide)
  have hapart := @eq_of_mem_folded f '=' (by decide)
  have hread : ∀ {s a}, readAttribute s = some a → ∃ t v, readType (s.takeWhile (· ≠ .plain '=')) = some t ∧
      readValue (s.dropWhile (· ≠ .plain '=')).tail = some v ∧ a = ⟨t, v⟩ ∧
      (s.dropWhile (· ≠ .plain '=')).flatMap (Symbol.folded f) =
        .plain '=' :: (s.dropWhile (· ≠ .plain '=')).tail.flatMap (Symbol.folded f) := by
    intro s a ha
    rw [readAttribute] at ha
    split_ifs at ha with hmem
    obtain ⟨t, ht, ha⟩ := Option.bind_eq_some_iff.1 ha
    obtain ⟨v, hv, ha⟩ := Option.bind_eq_some_iff.1 ha
    obtain ⟨r, hr⟩ := Separated.dropWhile_eq_cons hmem
    refine ⟨t, v, ht, hv, (Option.some.inj ha).symm, ?_⟩
    rw [hr, List.flatMap_cons, hsep]
    rfl
  obtain ⟨t, v, ht, hv, rfl, hrest⟩ := hread ha
  obtain ⟨t', v', ht', hv', rfl, hrest'⟩ := hread ha'
  have htype : (s.takeWhile (· ≠ .plain '=')).flatMap (Symbol.folded f) = (s'.takeWhile (· ≠ .plain '=')).flatMap (Symbol.folded f) := by
    rw [← (Separated.span_flatMap hsep hapart s).1, h, (Separated.span_flatMap hsep hapart s').1]
  have hvalue : (s.dropWhile (· ≠ .plain '=')).flatMap (Symbol.folded f) = (s'.dropWhile (· ≠ .plain '=')).flatMap (Symbol.folded f) := by
    rw [← (Separated.span_flatMap hsep hapart s).2, h, (Separated.span_flatMap hsep hapart s').2]
  rw [hrest, hrest', List.cons.injEq] at hvalue
  rw [Attribute.folded, Attribute.folded, readType_fold f ht ht' htype, readValue_fold f hv hv' hvalue.2]

theorem forall₂_of_mapM {α β γ : Type} {g : α → Option β} {k : α → γ} {R : β → β → Prop}
    (hR : ∀ {x x' y y'}, k x = k x' → g x = some y → g x' = some y' → R y y') {xs xs' : List α} {ys ys' : List β}
    (hk : xs.map k = xs'.map k) (hys : xs.mapM g = some ys) (hys' : xs'.mapM g = some ys') : List.Forall₂ R ys ys' := by
  induction xs generalizing xs' ys ys' with
  | nil =>
    obtain rfl := List.map_eq_nil_iff.1 hk.symm
    cases hys
    cases hys'
    exact .nil
  | cons x xs ih =>
    cases xs' with
    | nil => cases hk
    | cons x' xs' =>
      rw [List.map_cons, List.map_cons, List.cons.injEq] at hk
      rw [List.mapM_cons] at hys hys'
      obtain ⟨y, hy, hys⟩ := Option.bind_eq_some_iff.1 hys
      obtain ⟨zs, hzs, hys⟩ := Option.bind_eq_some_iff.1 hys
      obtain ⟨y', hy', hys'⟩ := Option.bind_eq_some_iff.1 hys'
      obtain ⟨zs', hzs', hys'⟩ := Option.bind_eq_some_iff.1 hys'
      cases hys
      cases hys'
      exact .cons (hR hk.1 hy hy') (ih hk.2 hzs hzs')

theorem sameEntry_of_text_eq {t t' : Text} {e e' : List (List Attribute)} (he : readName t = some e) (he' : readName t' = some e')
    (h : f.text t = f.text t') : SameEntry f e e' := by
  obtain ⟨s, hs, he⟩ := Option.bind_eq_some_iff.1 he
  obtain ⟨s', hs', he'⟩ := Option.bind_eq_some_iff.1 he'
  have hfold : s.flatMap (Symbol.folded f) = s'.flatMap (Symbol.folded f) := by
    have hsymbols := (spells_of_symbols hs).symbols_fold f
    rw [h, (spells_of_symbols hs').symbols_fold f, Option.some.injEq] at hsymbols
    exact hsymbols.symm
  have hpieces : ∀ {p : Char}, Caseless p → ∀ {s s' : List Symbol}, s.flatMap (Symbol.folded f) = s'.flatMap (Symbol.folded f) →
      (s.splitOn (.plain p)).map (List.flatMap (Symbol.folded f)) = (s'.splitOn (.plain p)).map (List.flatMap (Symbol.folded f)) := by
    intro p hp s s' h
    rw [← Separated.splitOn_flatMap (folded_sep f hp) (eq_of_mem_folded f hp), h,
      Separated.splitOn_flatMap (folded_sep f hp) (eq_of_mem_folded f hp)]
  have hempty : s = [] ↔ s' = [] := by
    have hnil : ∀ s : List Symbol, s.flatMap (Symbol.folded f) = [] ↔ s = [] := by
      intro s
      refine ⟨fun h => ?_, fun h => by rw [h]; rfl⟩
      cases s with
      | nil => rfl
      | cons x s => exact absurd (List.append_eq_nil_iff.1 h).1 (folded_ne_nil f x)
    rw [← hnil s, hfold, hnil s']
  by_cases hnil : s = []
  · rw [if_pos hnil] at he
    rw [if_pos (hempty.1 hnil)] at he'
    cases he
    cases he'
    exact .nil
  · rw [if_neg hnil] at he
    rw [if_neg fun h => hnil (hempty.2 h)] at he'
    refine forall₂_of_mapM ?_ (hpieces (by decide : Caseless ',') hfold) he he'
    intro part part' as as' hpart has has'
    have hattributes : List.Forall₂ (fun a a' => Attribute.folded f a = Attribute.folded f a') as as' :=
      forall₂_of_mapM (fun hp ha ha' => readAttribute_fold f ha ha' hp) (hpieces (by decide : Caseless '+') hpart) has has'
    have hmap : as.map (Attribute.folded f) = as'.map (Attribute.folded f) := by
      rw [← List.forall₂_eq_eq_eq, List.forall₂_map_left_iff, List.forall₂_map_right_iff]
      exact hattributes
    intro a
    rw [hmap]

theorem Spells.mem {t : Text} {s : List Symbol} (h : Spells t s) {c : Char} (hc : .plain c ∈ s) : c ∈ t := by
  induction h with
  | nil => cases hc
  | plain _ _ ih =>
    rcases List.mem_cons.1 hc with heq | hc
    · exact Symbol.plain.inj heq ▸ List.mem_cons_self
    · exact List.mem_cons_of_mem _ (ih hc)
  | escaped _ _ ih =>
    rcases List.mem_cons.1 hc with heq | hc
    · cases heq
    · exact List.mem_cons_of_mem _ (List.mem_cons_of_mem _ (ih hc))
  | octet _ _ ih =>
    rcases List.mem_cons.1 hc with heq | hc
    · cases heq
    · exact List.mem_cons_of_mem _ (List.mem_cons_of_mem _ (List.mem_cons_of_mem _ (ih hc)))

theorem mem_of_readName {t : Text} {e : List (List Attribute)} (h : readName t = some e) (ht : t ≠ []) : '=' ∈ t := by
  obtain ⟨s, hs, h⟩ := Option.bind_eq_some_iff.1 h
  split_ifs at h with hnil
  · rw [hnil] at hs
    cases spells_of_symbols hs
    exact absurd rfl ht
  · obtain ⟨part, hpart⟩ := List.exists_mem_of_ne_nil _ (List.splitOn_ne_nil (.plain ',') s)
    obtain ⟨as, has⟩ := (mapM_eq_some_forall h).2 part hpart
    obtain ⟨piece, hpiece⟩ := List.exists_mem_of_ne_nil _ (List.splitOn_ne_nil (.plain '+') part)
    obtain ⟨a, ha⟩ := (mapM_eq_some_forall has).2 piece hpiece
    rw [readAttribute] at ha
    split_ifs at ha with hmem
    exact (spells_of_symbols hs).mem (Separated.mem_of_mem_mem_splitOn hpart (Separated.mem_of_mem_mem_splitOn hpiece hmem))

end Names

end Lib.DistinguishedName
