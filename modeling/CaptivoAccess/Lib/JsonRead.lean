import Mathlib
import CaptivoAccess.Lib.JsonText

/-! JSON texts and how they are read. `Derives` is the grammar: which text is which value,
with white space between any two tokens. `parse` is `JSON.parse`; it takes every text that
the grammar derives (`parse_of_isText`). -/

namespace Lib.JsonRead

open Lib.JsonText

/-! Characters and tokens. -/

/-- A character as UTF-16 code units. -/
def utf16 (c : Char) : Units :=
  if c.toNat < 0x10000 then [UInt16.ofNat c.toNat]
  else [UInt16.ofNat (0xD800 + (c.toNat - 0x10000) / 0x400), UInt16.ofNat (0xDC00 + (c.toNat - 0x10000) % 0x400)]

def isWs (c : Char) : Bool := c = ' ' || c = '\t' || c = '\n' || c = '\r'

def skipWs (s : List Char) : List Char := s.dropWhile isWs

def hexValue (c : Char) : Option ℕ :=
  if c.isDigit then some (c.toNat - 48)
  else if 'a' ≤ c ∧ c ≤ 'f' then some (c.toNat - 87)
  else if 'A' ≤ c ∧ c ≤ 'F' then some (c.toNat - 55)
  else none

def hexUnit (a b c d : Char) : Option UInt16 := do
  let a ← hexValue a
  let b ← hexValue b
  let c ← hexValue c
  let d ← hexValue d
  return UInt16.ofNat (((a * 16 + b) * 16 + c) * 16 + d)

/-- What stands for a unit after a backslash. -/
def escaped (e : Char) : Option UInt16 :=
  if e = '\x22' then some 34
  else if e = '\\' then some 92
  else if e = '/' then some 47
  else if e = 'b' then some 8
  else if e = 'f' then some 12
  else if e = 'n' then some 10
  else if e = 'r' then some 13
  else if e = 't' then some 9
  else none

/-- The units of a string, from behind its first quote. -/
def readString : List Char → Option (Units × List Char)
  | [] => none
  | '\\' :: 'u' :: a :: b :: c :: d :: r => do
    let u ← hexUnit a b c d
    let rest ← readString r
    return (u :: rest.1, rest.2)
  | '\\' :: e :: r => do
    let u ← escaped e
    let rest ← readString r
    return (u :: rest.1, rest.2)
  | c :: r =>
    if c = '\x22' then some ([], r)
    else if c = '\\' ∨ c.toNat < 0x20 then none
    else do
      let rest ← readString r
      return (utf16 c ++ rest.1, rest.2)

/-- One digit or more. -/
def readDigits (s : List Char) : Option (List Char × List Char) :=
  if s.takeWhile Char.isDigit = [] then none else some (s.takeWhile Char.isDigit, s.dropWhile Char.isDigit)

/-- Digits of a whole number, without a zero in front of another. -/
def readInt : List Char → Option (List Char × List Char)
  | '0' :: r => some (['0'], r)
  | s => readDigits s

def readFraction : List Char → Option (List Char × List Char)
  | '.' :: r => (readDigits r).map fun d => ('.' :: d.1, d.2)
  | s => some ([], s)

def readExponent : List Char → Option (List Char × List Char)
  | c :: r =>
    if c = 'e' ∨ c = 'E' then
      match r with
      | '+' :: t => (readDigits t).map fun d => (c :: '+' :: d.1, d.2)
      | '-' :: t => (readDigits t).map fun d => (c :: '-' :: d.1, d.2)
      | t => (readDigits t).map fun d => (c :: d.1, d.2)
    else some ([], c :: r)
  | [] => some ([], [])

/-- The minus sign, and what follows. -/
def readSign : List Char → List Char × List Char
  | '-' :: r => (['-'], r)
  | s => ([], s)

def readNumber (s : List Char) : Option (List Char × List Char) := do
  let sign := readSign s
  let whole ← readInt sign.2
  let fraction ← readFraction whole.2
  let exponent ← readExponent fraction.2
  return (sign.1 ++ whole.1 ++ fraction.1 ++ exponent.1, exponent.2)

/-- The text of a number, as far as it is one. -/
def numText (l : List Char) : Option NumText :=
  let t : Units := l.map fun c => UInt16.ofNat c.toNat
  if h : t ≠ [] ∧ ∀ c ∈ t, isNumUnit c = true then some ⟨t, h.1, h.2⟩ else none

/-- A value that is one token. -/
def readAtom : List Char → Option (Json × List Char)
  | '\x22' :: r => (readString r).map fun s => (.str s.1, s.2)
  | 't' :: 'r' :: 'u' :: 'e' :: r => some (.bool true, r)
  | 'f' :: 'a' :: 'l' :: 's' :: 'e' :: r => some (.bool false, r)
  | 'n' :: 'u' :: 'l' :: 'l' :: r => some (.null, r)
  | s => do
    let n ← readNumber s
    let t ← numText n.1
    return (.num t, n.2)

/-! The reader. -/

mutual

def readValue : ℕ → List Char → Option (Json × List Char)
  | 0, _ => none
  | n + 1, s =>
    match skipWs s with
    | '[' :: t =>
      match skipWs t with
      | ']' :: r => some (.arr [], r)
      | _ => (readElements n t).map fun e => (.arr e.1, e.2)
    | '\x7b' :: t =>
      match skipWs t with
      | '\x7d' :: r => some (.obj [], r)
      | _ => (readMembers n t).map fun e => (.obj e.1, e.2)
    | t => readAtom t

/-- The elements of an array up to its closing bracket. -/
def readElements : ℕ → List Char → Option (List Json × List Char)
  | 0, _ => none
  | n + 1, s =>
    match readValue n s with
    | none => none
    | some (x, t) =>
      match skipWs t with
      | ']' :: r => some ([x], r)
      | ',' :: u => (readElements n u).map fun e => (x :: e.1, e.2)
      | _ => none

/-- The members of an object up to its closing brace. -/
def readMembers : ℕ → List Char → Option (List (Units × Json) × List Char)
  | 0, _ => none
  | n + 1, s =>
    match skipWs s with
    | '\x22' :: k =>
      match readString k with
      | none => none
      | some (key, t) =>
        match skipWs t with
        | ':' :: v =>
          match readValue n v with
          | none => none
          | some (x, t) =>
            match skipWs t with
            | '\x7d' :: r => some ([(key, x)], r)
            | ',' :: u => (readMembers n u).map fun e => ((key, x) :: e.1, e.2)
            | _ => none
        | _ => none
    | _ => none

end

def parse (s : List Char) : Option Json :=
  match readValue (2 * s.length) s with
  | some (v, r) => if skipWs r = [] then some v else none
  | none => none

/-! The grammar. -/

inductive Item where
  | value (v : Json)
  | elements (xs : List Json)
  | members (fs : List (Units × Json))

/-- The text begins with the item, and the rest follows it. -/
inductive Derives : List Char → Item → List Char → Prop
  | atom {s r v} : readAtom (skipWs s) = some (v, r) → Derives s (.value v) r
  | noElements {s t r} : skipWs s = '[' :: t → skipWs t = ']' :: r → Derives s (.value (.arr [])) r
  | array {s t r xs} : skipWs s = '[' :: t → Derives t (.elements xs) r → Derives s (.value (.arr xs)) r
  | noMembers {s t r} : skipWs s = '\x7b' :: t → skipWs t = '\x7d' :: r → Derives s (.value (.obj [])) r
  | object {s t r fs} : skipWs s = '\x7b' :: t → Derives t (.members fs) r → Derives s (.value (.obj fs)) r
  | lastElement {s t r x} : Derives s (.value x) t → skipWs t = ']' :: r → Derives s (.elements [x]) r
  | element {s t u r x xs} : Derives s (.value x) t → skipWs t = ',' :: u → Derives u (.elements xs) r → Derives s (.elements (x :: xs)) r
  | lastMember {s k t v t' r key x} : skipWs s = '\x22' :: k → readString k = some (key, t) → skipWs t = ':' :: v →
      Derives v (.value x) t' → skipWs t' = '\x7d' :: r → Derives s (.members [(key, x)]) r
  | member {s k t v t' u r key x fs} : skipWs s = '\x22' :: k → readString k = some (key, t) → skipWs t = ':' :: v →
      Derives v (.value x) t' → skipWs t' = ',' :: u → Derives u (.members fs) r → Derives s (.members ((key, x) :: fs)) r

/-- The whole text is the value. -/
def IsText (s : List Char) (v : Json) : Prop := ∃ r, Derives s (.value v) r ∧ skipWs r = []

/-! The units of a string, one by one. -/

section Strings

variable {r rest : List Char} {u : Units} (h : readString r = some (u, rest))
include h

theorem readString_escaped {e : Char} {v : UInt16} (he : escaped e = some v) : readString ('\\' :: e :: r) = some (v :: u, rest) := by
  have hu : e ≠ 'u' := by
    rintro rfl
    cases he
  rw [readString, he, h]
  · rfl
  · exact fun _ _ _ _ _ heq => absurd heq hu

theorem readString_hex {a b c d : Char} {v : UInt16} (hv : hexUnit a b c d = some v) :
    readString ('\\' :: 'u' :: a :: b :: c :: d :: r) = some (v :: u, rest) := by
  rw [readString, hv, h]
  rfl

theorem readString_plain {c : Char} (hquote : c ≠ '\x22') (hslash : c ≠ '\\') (hc : 0x20 ≤ c.toNat) :
    readString (c :: r) = some (utf16 c ++ u, rest) := by
  have hrefused : ¬ (c = '\\' ∨ c.toNat < 0x20) := fun hor => hor.elim hslash (Nat.not_lt.2 hc)
  rw [readString, if_neg hquote, if_neg hrefused, h]
  · rfl
  · exact fun _ _ _ _ _ heq _ => absurd heq hslash
  · exact fun _ _ heq _ => absurd heq hslash

end Strings

/-! Integers. -/

/-- The digits of a whole number: only zero begins with a zero. -/
def WholeDigits (ds : List Char) : Prop :=
  ds = ['0'] ∨ ∃ c cs, ds = c :: cs ∧ c ≠ '0' ∧ ∀ x ∈ c :: cs, x.isDigit = true

/-- The character does not go on with a number. -/
def endsNumber (c : Char) : Bool := !c.isDigit && c ≠ '.' && c ≠ 'e' && c ≠ 'E'

section Integers

variable {ds r : List Char} {c : Char} (hds : WholeDigits ds) (hc : endsNumber c = true)
include hds hc

theorem readInt_digits : readInt (ds ++ c :: r) = some (ds, c :: r) := by
  have hdigit : c.isDigit = false := by
    simp only [endsNumber, Bool.and_eq_true, Bool.not_eq_true'] at hc
    exact hc.1.1.1
  rcases hds with rfl | ⟨d, ds, rfl, hd, hall⟩
  · rfl
  · have htake : ((d :: ds) ++ c :: r).takeWhile Char.isDigit = d :: ds := by
      rw [List.takeWhile_append_of_pos hall, List.takeWhile_cons_of_neg (by simp [hdigit]), List.append_nil]
    have hdrop : ((d :: ds) ++ c :: r).dropWhile Char.isDigit = c :: r := by
      rw [List.dropWhile_append_of_pos hall, List.dropWhile_cons_of_neg (by simp [hdigit])]
    have hread : readInt ((d :: ds) ++ c :: r) = readDigits ((d :: ds) ++ c :: r) := by
      rw [List.cons_append, readInt]
      exact fun _ heq => hd (List.cons.inj heq).1
    rw [hread, readDigits, htake, hdrop, if_neg (List.cons_ne_nil _ _)]

theorem readNumber_int (neg : Bool) :
    readNumber ((if neg then ['-'] else []) ++ ds ++ c :: r) = some ((if neg then ['-'] else []) ++ ds, c :: r) := by
  have hend : (c ≠ '.' ∧ c ≠ 'e') ∧ c ≠ 'E' := by
    simp only [endsNumber, Bool.and_eq_true, decide_eq_true_eq] at hc
    exact ⟨⟨hc.1.1.2, hc.1.2⟩, hc.2⟩
  have hsign : readSign ((if neg then ['-'] else []) ++ ds ++ c :: r) = (if neg then ['-'] else [], ds ++ c :: r) := by
    cases neg with
    | true => rfl
    | false =>
      rw [if_neg Bool.false_ne_true, List.nil_append]
      rcases hds with rfl | ⟨d, ds, rfl, -, hall⟩
      · rfl
      · rw [List.cons_append, readSign]
        intro t heq
        have hd := hall d List.mem_cons_self
        rw [(List.cons.inj heq).1] at hd
        cases hd
  have hfraction : readFraction (c :: r) = some ([], c :: r) := by
    rw [readFraction]
    exact fun _ heq => hend.1.1 (List.cons.inj heq).1
  have hexponent : readExponent (c :: r) = some ([], c :: r) := if_neg fun hor => hor.elim hend.1.2 hend.2
  rw [readNumber, hsign]
  simp [readInt_digits hds hc, hfraction, hexponent]

theorem readAtom_int (neg : Bool) {t : NumText} (ht : numText ((if neg then ['-'] else []) ++ ds) = some t) :
    readAtom ((if neg then ['-'] else []) ++ ds ++ c :: r) = some (.num t, c :: r) := by
  have hhead : ∀ a s, (if neg then ['-'] else []) ++ ds ++ c :: r = a :: s → a = '-' ∨ a.isDigit = true := by
    intro a s heq
    cases neg with
    | true => exact Or.inl (List.cons.inj heq).1.symm
    | false =>
      rcases hds with rfl | ⟨d, ds, rfl, -, hall⟩
      · exact Or.inr ((List.cons.inj heq).1 ▸ rfl)
      · exact Or.inr ((List.cons.inj heq).1 ▸ hall d List.mem_cons_self)
  rw [readAtom, readNumber_int hds hc]
  · simp [ht]
  · exact fun s heq => absurd (hhead _ _ heq) (by decide)
  · exact fun s heq => absurd (hhead _ _ heq) (by decide)
  · exact fun s heq => absurd (hhead _ _ heq) (by decide)
  · exact fun s heq => absurd (hhead _ _ heq) (by decide)

end Integers

/-! Every token uses up some of the text. -/

theorem length_skipWs_le (s : List Char) : (skipWs s).length ≤ s.length := (List.dropWhile_suffix isWs).length_le

theorem length_of_skipWs {s t : List Char} {c : Char} (h : skipWs s = c :: t) : t.length < s.length := by
  have hle := length_skipWs_le s
  rw [h, List.length_cons] at hle
  exact hle

theorem readString_shorter {s r : List Char} {u : Units} (h : readString s = some (u, r)) : r.length < s.length := by
  fun_induction readString s generalizing u with
  | case1 => cases h
  | case2 a b c d s ih =>
    obtain ⟨v, -, hrest⟩ := Option.bind_eq_some_iff.1 h
    obtain ⟨rest, hread, hpair⟩ := Option.bind_eq_some_iff.1 hrest
    obtain ⟨-, rfl⟩ := Prod.mk.inj (Option.some.inj hpair)
    have hlt := ih hread
    simp only [List.length_cons]
    omega
  | case3 e s hu ih =>
    obtain ⟨v, -, hrest⟩ := Option.bind_eq_some_iff.1 h
    obtain ⟨rest, hread, hpair⟩ := Option.bind_eq_some_iff.1 hrest
    obtain ⟨-, rfl⟩ := Prod.mk.inj (Option.some.inj hpair)
    have hlt := ih hread
    simp only [List.length_cons]
    omega
  | case4 s =>
    obtain ⟨-, rfl⟩ := Prod.mk.inj (Option.some.inj h)
    exact Nat.lt_succ_self _
  | case5 c s => cases h
  | case6 c s _ _ _ _ ih =>
    obtain ⟨rest, hread, hpair⟩ := Option.bind_eq_some_iff.1 h
    obtain ⟨-, rfl⟩ := Prod.mk.inj (Option.some.inj hpair)
    exact (ih hread).trans (Nat.lt_succ_self _)

theorem readDigits_shorter {s d r : List Char} (h : readDigits s = some (d, r)) : r.length < s.length := by
  unfold readDigits at h
  split_ifs at h with hnone
  obtain ⟨-, rfl⟩ := Prod.mk.inj (Option.some.inj h)
  have hpos := List.length_pos_of_ne_nil hnone
  have hsum := congrArg List.length (List.takeWhile_append_dropWhile (p := Char.isDigit) (l := s))
  rw [List.length_append] at hsum
  omega

theorem readInt_shorter {s d r : List Char} (h : readInt s = some (d, r)) : r.length < s.length := by
  unfold readInt at h
  split at h
  · obtain ⟨-, rfl⟩ := Prod.mk.inj (Option.some.inj h)
    exact Nat.lt_succ_self _
  · exact readDigits_shorter h

theorem readFraction_le {s d r : List Char} (h : readFraction s = some (d, r)) : r.length ≤ s.length := by
  unfold readFraction at h
  split at h
  · obtain ⟨e, hdigits, hpair⟩ := Option.map_eq_some_iff.1 h
    obtain ⟨-, rfl⟩ := Prod.mk.inj hpair
    exact (readDigits_shorter hdigits).le.trans (Nat.le_succ _)
  · obtain ⟨-, rfl⟩ := Prod.mk.inj (Option.some.inj h)
    exact le_rfl

theorem readExponent_le {s d r : List Char} (h : readExponent s = some (d, r)) : r.length ≤ s.length := by
  have hdigits : ∀ {t : List Char} {f : List Char × List Char → List Char},
      ((readDigits t).map fun d => (f d, d.2)) = some (d, r) → r.length ≤ t.length := by
    intro t f hmap
    obtain ⟨e, hread, hpair⟩ := Option.map_eq_some_iff.1 hmap
    obtain ⟨-, rfl⟩ := Prod.mk.inj hpair
    exact (readDigits_shorter hread).le
  unfold readExponent at h
  split at h
  · split_ifs at h
    · split at h
      · have hle := hdigits h
        simp only [List.length_cons]
        omega
      · have hle := hdigits h
        simp only [List.length_cons]
        omega
      · exact (hdigits h).trans (Nat.le_succ _)
    · obtain ⟨-, rfl⟩ := Prod.mk.inj (Option.some.inj h)
      exact le_rfl
  · obtain ⟨-, rfl⟩ := Prod.mk.inj (Option.some.inj h)
    exact le_rfl

theorem readSign_le (s : List Char) : (readSign s).2.length ≤ s.length := by
  unfold readSign
  split
  · exact Nat.le_succ _
  · exact le_rfl

theorem readNumber_shorter {s d r : List Char} (h : readNumber s = some (d, r)) : r.length < s.length := by
  obtain ⟨whole, hwhole, h⟩ := Option.bind_eq_some_iff.1 h
  obtain ⟨fraction, hfraction, h⟩ := Option.bind_eq_some_iff.1 h
  obtain ⟨exponent, hexponent, h⟩ := Option.bind_eq_some_iff.1 h
  obtain ⟨-, rfl⟩ := Prod.mk.inj (Option.some.inj h)
  calc exponent.2.length ≤ fraction.2.length := readExponent_le hexponent
    _ ≤ whole.2.length := readFraction_le hfraction
    _ < (readSign s).2.length := readInt_shorter hwhole
    _ ≤ s.length := readSign_le s

theorem readAtom_shorter {s r : List Char} {v : Json} (h : readAtom s = some (v, r)) : r.length < s.length := by
  unfold readAtom at h
  split at h
  · obtain ⟨u, hread, hpair⟩ := Option.map_eq_some_iff.1 h
    obtain ⟨-, rfl⟩ := Prod.mk.inj hpair
    exact (readString_shorter hread).trans (Nat.lt_succ_self _)
  · obtain ⟨-, rfl⟩ := Prod.mk.inj (Option.some.inj h)
    simp only [List.length_cons]
    omega
  · obtain ⟨-, rfl⟩ := Prod.mk.inj (Option.some.inj h)
    simp only [List.length_cons]
    omega
  · obtain ⟨-, rfl⟩ := Prod.mk.inj (Option.some.inj h)
    simp only [List.length_cons]
    omega
  · obtain ⟨n, hnumber, h⟩ := Option.bind_eq_some_iff.1 h
    obtain ⟨t, -, h⟩ := Option.bind_eq_some_iff.1 h
    obtain ⟨-, rfl⟩ := Prod.mk.inj (Option.some.inj h)
    exact readNumber_shorter hnumber

theorem Derives.shorter {s r : List Char} {item : Item} (h : Derives s item r) : r.length < s.length := by
  induction h with
  | atom hatom => exact (readAtom_shorter hatom).trans_le (length_skipWs_le _)
  | noElements hopen hclose => exact (length_of_skipWs hclose).trans (length_of_skipWs hopen)
  | array hopen _ ih => exact ih.trans (length_of_skipWs hopen)
  | noMembers hopen hclose => exact (length_of_skipWs hclose).trans (length_of_skipWs hopen)
  | object hopen _ ih => exact ih.trans (length_of_skipWs hopen)
  | lastElement _ hclose ih => exact (length_of_skipWs hclose).trans ih
  | element _ hcomma _ ih ihs => exact ihs.trans ((length_of_skipWs hcomma).trans ih)
  | lastMember hquote hkey hcolon _ hclose ih =>
    exact (length_of_skipWs hclose).trans (ih.trans ((length_of_skipWs hcolon).trans
      ((readString_shorter hkey).trans (length_of_skipWs hquote))))
  | member hquote hkey hcolon _ hcomma _ ih ihs =>
    exact ihs.trans ((length_of_skipWs hcomma).trans (ih.trans ((length_of_skipWs hcolon).trans
      ((readString_shorter hkey).trans (length_of_skipWs hquote)))))

/-! Tokens without white space in front of them. -/

theorem skipWs_cons {c : Char} (h : isWs c = false) (s : List Char) : skipWs (c :: s) = c :: s :=
  List.dropWhile_cons_of_neg (by simp [h])

theorem Derives.token {s r : List Char} {v : Json} (h : readAtom s = some (v, r)) : Derives s (.value v) r := by
  refine .atom ?_
  rcases s with _ | ⟨c, s⟩
  · cases h
  · rw [skipWs_cons ?_, h]
    by_contra hws
    simp only [isWs, Bool.not_eq_false, Bool.or_eq_true, decide_eq_true_eq] at hws
    rcases hws with ((rfl | rfl) | rfl) | rfl
    · cases h
    · cases h
    · cases h
    · cases h

/-! The reader follows the grammar. -/

theorem readAtom_open (t : List Char) : readAtom ('[' :: t) = none ∧ readAtom ('\x7b' :: t) = none ∧ readAtom (']' :: t) = none :=
  ⟨rfl, rfl, rfl⟩

theorem Derives.not_close {s r t : List Char} {xs : List Json} (h : Derives s (.elements xs) r) : skipWs s ≠ ']' :: t := by
  have hvalue : ∀ {x u}, Derives s (.value x) u → skipWs s ≠ ']' :: t := by
    intro x u hx he
    cases hx with
    | atom hatom =>
      rw [he, (readAtom_open t).2.2] at hatom
      cases hatom
    | noElements hopen => simp [he] at hopen
    | array hopen => simp [he] at hopen
    | noMembers hopen => simp [he] at hopen
    | object hopen => simp [he] at hopen
  cases h with
  | lastElement hx => exact hvalue hx
  | element hx => exact hvalue hx

/-- The reader gives the item, as soon as it has so much fuel. -/
def Accepted (s r : List Char) : Item → Prop
  | .value v => ∀ n, 2 * s.length ≤ n → readValue n s = some (v, r)
  | .elements xs => ∀ n, 2 * s.length < n → readElements n s = some (xs, r)
  | .members fs => ∀ n, 2 * s.length < n → readMembers n s = some (fs, r)

theorem Derives.accepted {s r : List Char} {item : Item} (h : Derives s item r) : Accepted s r item := by
  induction h with
  | @atom s r v hatom =>
    intro n hn
    have hlt := (Derives.atom hatom).shorter
    obtain ⟨n, rfl⟩ := Nat.exists_eq_succ_of_ne_zero (show n ≠ 0 by omega)
    rw [readValue]
    split
    · rename_i t ht
      rw [ht, (readAtom_open t).1] at hatom
      cases hatom
    · rename_i t ht
      rw [ht, (readAtom_open t).2.1] at hatom
      cases hatom
    · exact hatom
  | @noElements s t r hopen hclose =>
    intro n hn
    have hlt := length_of_skipWs hopen
    obtain ⟨n, rfl⟩ := Nat.exists_eq_succ_of_ne_zero (show n ≠ 0 by omega)
    simp only [readValue, hopen, hclose]
  | @array s t r xs hopen hxs ih =>
    intro n hn
    have hlt := length_of_skipWs hopen
    obtain ⟨n, rfl⟩ := Nat.exists_eq_succ_of_ne_zero (show n ≠ 0 by omega)
    have hread := ih n (by omega)
    simp only [readValue, hopen]
    split
    · rename_i u hu
      exact absurd hu hxs.not_close
    · rw [hread]
      rfl
  | @noMembers s t r hopen hclose =>
    intro n hn
    have hlt := length_of_skipWs hopen
    obtain ⟨n, rfl⟩ := Nat.exists_eq_succ_of_ne_zero (show n ≠ 0 by omega)
    simp only [readValue, hopen, hclose]
  | @object s t r fs hopen hfs ih =>
    intro n hn
    have hlt := length_of_skipWs hopen
    obtain ⟨n, rfl⟩ := Nat.exists_eq_succ_of_ne_zero (show n ≠ 0 by omega)
    have hread := ih n (by omega)
    simp only [readValue, hopen]
    split
    · rename_i u hu
      cases hfs with
      | lastMember hquote => simp [hu] at hquote
      | member hquote => simp [hu] at hquote
    · rw [hread]
      rfl
  | @lastElement s t r x hx hclose ih =>
    intro n hn
    obtain ⟨n, rfl⟩ := Nat.exists_eq_succ_of_ne_zero (show n ≠ 0 by omega)
    simp only [readElements, ih n (by omega), hclose]
  | @element s t u r x xs hx hcomma hxs ih ihs =>
    intro n hn
    have hlt := (length_of_skipWs hcomma).trans hx.shorter
    obtain ⟨n, rfl⟩ := Nat.exists_eq_succ_of_ne_zero (show n ≠ 0 by omega)
    simp only [readElements, ih n (by omega), hcomma, ihs n (by omega)]
    rfl
  | @lastMember s k t v t' r key x hquote hkey hcolon hx hclose ih =>
    intro n hn
    have hlt := (length_of_skipWs hcolon).trans ((readString_shorter hkey).trans (length_of_skipWs hquote))
    obtain ⟨n, rfl⟩ := Nat.exists_eq_succ_of_ne_zero (show n ≠ 0 by omega)
    simp only [readMembers, hquote, hkey, hcolon, ih n (by omega), hclose]
  | @member s k t v t' u r key x fs hquote hkey hcolon hx hcomma hfs ih ihs =>
    intro n hn
    have hvalue := (length_of_skipWs hcolon).trans ((readString_shorter hkey).trans (length_of_skipWs hquote))
    have hrest := (length_of_skipWs hcomma).trans (hx.shorter.trans hvalue)
    obtain ⟨n, rfl⟩ := Nat.exists_eq_succ_of_ne_zero (show n ≠ 0 by omega)
    simp only [readMembers, hquote, hkey, hcolon, ih n (by omega), hcomma, ihs n (by omega)]
    rfl

theorem parse_of_isText {s : List Char} {v : Json} (h : IsText s v) : parse s = some v := by
  obtain ⟨r, hvalue, hr⟩ := h
  have hread : readValue (2 * s.length) s = some (v, r) := hvalue.accepted _ le_rfl
  rw [parse, hread]
  exact if_pos hr

end Lib.JsonRead
