import Mathlib.Tactic
import Mathlib.Data.List.DropRight

/-! The head of an HTTP response as a text: how it is written, what a browser reads
out of it, and which cookies the standard makes of its `Set-Cookie` fields. -/

namespace Lib.HttpHead

abbrev Text := List Char

section Trim

variable {p q : Char → Bool} {s : Text}

/-- The text without what satisfies `p` at both ends. -/
def trim (p : Char → Bool) (s : Text) : Text := (s.dropWhile p).rdropWhile p

theorem exists_eq_append_trim (p : Char → Bool) (s : Text) :
    ∃ a b, s = a ++ trim p s ++ b ∧ (∀ c ∈ a, p c = true) ∧ ∀ c ∈ b, p c = true := by
  refine ⟨s.takeWhile p, (s.dropWhile p).rtakeWhile p, ?_, fun c hc => List.mem_takeWhile_imp hc, ?_⟩
  · rw [trim, List.append_assoc]
    conv_lhs => rw [← List.takeWhile_append_dropWhile (p := p) (l := s)]
    congr 1
    simp only [List.rdropWhile, List.rtakeWhile]
    rw [← List.reverse_append, List.takeWhile_append_dropWhile, List.reverse_reverse]
  · exact fun c hc => List.mem_rtakeWhile_imp hc

theorem rdropWhile_append {a b : Text} (hb : ∀ c ∈ b, p c = true) : (a ++ b).rdropWhile p = a.rdropWhile p := by
  rw [List.rdropWhile, List.reverse_append, List.dropWhile_append_of_pos (by simpa using hb), ← List.rdropWhile]

theorem trim_append {a b : Text} (ha : ∀ c ∈ a, p c = true) (hb : ∀ c ∈ b, p c = true) :
    trim p (a ++ s ++ b) = trim p s := by
  rw [trim, List.append_assoc, List.dropWhile_append_of_pos ha, List.dropWhile_append]
  split_ifs with hs
  · rw [trim, List.isEmpty_iff.1 hs, List.dropWhile_eq_nil_iff.2 hb]
  · rw [rdropWhile_append hb, trim]

theorem trim_trim (h : ∀ c, p c = true → q c = true) : trim q (trim p s) = trim q s := by
  obtain ⟨a, b, hs, ha, hb⟩ := exists_eq_append_trim p s
  conv_rhs => rw [hs]
  exact (trim_append (fun c hc => h c (ha c hc)) fun c hc => h c (hb c hc)).symm

theorem trim_of_trim (h : ∀ c, p c = true → q c = true) : trim p (trim q s) = trim q s := by
  have hhead : (trim q s).dropWhile p = trim q s := by
    refine List.dropWhile_eq_self_iff.2 fun hpos hp => ?_
    have hprefix : trim q s <+: s.dropWhile q := List.rdropWhile_prefix q _
    have hnot := List.dropWhile_get_zero_not q s (hpos.trans_le hprefix.length_le)
    rw [List.get_eq_getElem, ← hprefix.getElem hpos] at hnot
    exact hnot (h _ hp)
  rw [trim, hhead]
  exact List.rdropWhile_eq_self_iff.2 fun hne hp => List.rdropWhile_last_not q _ hne (h _ hp)

theorem mem_of_mem_trim {c : Char} (h : c ∈ trim p s) : c ∈ s :=
  List.dropWhile_subset _ (List.IsPrefix.subset (List.rdropWhile_prefix p _) h)

theorem trim_eq_self (h : ∀ c ∈ s, p c = false) : trim p s = s := by
  have hhead : s.dropWhile p = s := by
    cases s with
    | nil => rfl
    | cons c s => rw [List.dropWhile_cons_of_neg (by simp [h c])]
  rw [trim, hhead, List.rdropWhile_eq_self_iff]
  intro hne
  simp [h _ (List.getLast_mem hne)]

theorem trim_cons {c : Char} (hc : p c = false) (t : Text) : ∃ a b, trim p (c :: t) = c :: a ∧ t = a ++ b := by
  obtain ⟨front, back, ht, hfront, hback⟩ := exists_eq_append_trim p (c :: t)
  cases front with
  | cons d front =>
    rw [List.cons_append, List.cons_append, List.cons.injEq] at ht
    rw [ht.1, hfront d List.mem_cons_self] at hc
    cases hc
  | nil =>
    rw [List.nil_append] at ht
    cases htrim : trim p (c :: t) with
    | nil =>
      rw [htrim, List.nil_append] at ht
      rw [hback c (ht ▸ List.mem_cons_self)] at hc
      cases hc
    | cons d a =>
      rw [htrim, List.cons_append, List.cons.injEq] at ht
      exact ⟨a, back, by rw [ht.1], ht.2⟩

theorem trim_map {f : Char → Char} (h : ∀ c, p (f c) = p c) : trim p (s.map f) = (trim p s).map f := by
  have hp : p ∘ f = p := funext h
  simp only [trim, List.rdropWhile, List.dropWhile_map, ← List.map_reverse, hp]

end Trim

/-! Case. -/

theorem toLower_of_ge {c : Char} (h : 0x80 ≤ c.toNat) : c.toLower = c := by
  have hval : c.toNat = c.val.toNat := rfl
  unfold Char.toLower
  rw [dif_neg]
  rintro ⟨-, hz⟩
  have hle : c.val.toNat ≤ 90 := hz
  omega

theorem toUpper_of_ge {c : Char} (h : 0x80 ≤ c.toNat) : c.toUpper = c := by
  have hval : c.toNat = c.val.toNat := rfl
  unfold Char.toUpper
  rw [dif_neg]
  rintro ⟨-, hz⟩
  have hle : c.val.toNat ≤ 122 := hz
  omega

theorem ascii_or_ge {P : Char → Prop} (hascii : ∀ n < 0x80, P (Char.ofNat n)) (hge : ∀ c : Char, 0x80 ≤ c.toNat → P c)
    (c : Char) : P c := by
  by_cases h : c.toNat < 0x80
  · have hc := hascii _ h
    rwa [Char.ofNat_toNat] at hc
  · exact hge c (Nat.le_of_not_lt h)

theorem toLower_toUpper : ∀ c : Char, c.toUpper.toLower = c.toLower :=
  ascii_or_ge (by decide) fun c hc => by rw [toUpper_of_ge hc]

theorem toLower_toLower : ∀ c : Char, c.toLower.toLower = c.toLower :=
  ascii_or_ge (by decide) fun c hc => by simp only [toLower_of_ge hc]

theorem lt_of_toLower_lt {c : Char} (h : c.toLower.toNat < 0x80) : c.toNat < 0x80 := by
  by_contra hge
  rw [toLower_of_ge (Nat.le_of_not_lt hge)] at h
  exact hge h

/-! Cookies. -/

structure Cookie where
  name : Text
  value : Text
  attributes : Text
  deriving DecidableEq

def isWsp (c : Char) : Bool := c = ' ' || c = '\t'

def isControl (c : Char) : Bool := (c.toNat < 0x20 && c ≠ '\t') || c.toNat = 0x7F

def octets (s : Text) : ℕ := (s.map Char.utf8Size).sum

/-- The name and the value of a pair without an equals sign: all of it is the value. -/
def splitPair (pair : Text) : Text × Text :=
  if '=' ∈ pair then (pair.takeWhile (· ≠ '='), (pair.dropWhile (· ≠ '=')).drop 1) else ([], pair)

/-- What a browser makes of the value of a `Set-Cookie` field. -/
def cookieOf (s : Text) : Option Cookie :=
  if s.any isControl then none
  else
    let pair := splitPair (s.takeWhile (· ≠ ';'))
    let c : Cookie := ⟨trim isWsp pair.1, trim isWsp pair.2, s.dropWhile (· ≠ ';')⟩
    if octets c.name + octets c.value > 4096 then none else some c

theorem takeWhile_append_of_mem {c : Char} {s t : Text} (h : c ∈ s) : (s ++ t).takeWhile (· ≠ c) = s.takeWhile (· ≠ c) := by
  rw [List.takeWhile_append, if_neg]
  intro hlen
  have hall := List.takeWhile_eq_self_iff.1 (List.IsPrefix.eq_of_length (List.takeWhile_prefix _) hlen)
  simpa using hall c h

theorem name_of_cookieOf {s : Text} {c : Cookie} (h : cookieOf s = some c) (hname : c.name ≠ []) :
    '=' ∈ s ∧ c.name = trim isWsp (s.takeWhile (· ≠ '=')) := by
  simp only [cookieOf] at h
  split_ifs at h
  have hc := Option.some.inj h
  by_cases heq : '=' ∈ s.takeWhile (· ≠ ';')
  · have htake : (s.takeWhile (· ≠ ';')).takeWhile (· ≠ '=') = s.takeWhile (· ≠ '=') := by
      conv_rhs => rw [← List.takeWhile_append_dropWhile (p := (· ≠ ';')) (l := s)]
      exact (takeWhile_append_of_mem heq).symm
    refine ⟨List.takeWhile_subset _ heq, ?_⟩
    rw [← hc, ← htake]
    simp only [splitPair, heq, if_true]
  · refine absurd ?_ hname
    rw [← hc]
    simp only [splitPair, heq, if_false]
    rfl

/-! Heads. -/

abbrev Field := Text × Text

def crlf : Text := ['\r', '\n']

def writeField (f : Field) : Text := f.1 ++ ": ".toList ++ f.2 ++ crlf

def writeHead (status : Text) (fs : List Field) : Text := status ++ crlf ++ fs.flatMap writeField ++ crlf

def stripCR (line : Text) : Text := if line.getLast? = some '\r' then line.dropLast else line

def readField (line : Text) : Option Field :=
  if ':' ∈ line then some (line.takeWhile (· ≠ ':'), trim isWsp ((line.dropWhile (· ≠ ':')).drop 1)) else none

/-- The lines between the first and the first empty one. -/
def readHead (s : Text) : List Field :=
  ((((s.splitOn '\n').map stripCR).drop 1).takeWhile (· ≠ [])).filterMap readField

def isSetCookie (name : Text) : Bool := name.map Char.toLower = "set-cookie".toList

/-- The cookies that the browser is asked to store. -/
def cookies (head : Text) : List Cookie :=
  ((readHead head).filter fun f => isSetCookie f.1).filterMap fun f => cookieOf f.2

/-- Neither the name nor the value ends the line, and the name does not end early. -/
def Clean (f : Field) : Prop := ':' ∉ f.1 ∧ '\n' ∉ f.1 ∧ '\n' ∉ f.2

theorem splitOn_line {l s : Text} (h : '\n' ∉ l) : (l ++ '\n' :: s).splitOn '\n' = l :: s.splitOn '\n' := by
  refine List.splitOnP_append_cons_of_forall_mem ?_ '\n' (by simp) s
  rintro c hc
  simp only [beq_eq_false_iff_ne, ne_eq]
  rintro rfl
  exact h hc

theorem stripCR_append (l : Text) : stripCR (l ++ ['\r']) = l := by simp [stripCR]

theorem readField_written {f : Field} (h : ':' ∉ f.1) : readField (f.1 ++ ": ".toList ++ f.2) = some (f.1, trim isWsp f.2) := by
  have hne : ∀ c ∈ f.1, (decide (c ≠ ':')) = true := by
    intro c hc
    simp only [decide_eq_true_eq]
    rintro rfl
    exact h hc
  have hline : f.1 ++ ": ".toList ++ f.2 = f.1 ++ ':' :: ' ' :: f.2 := by simp
  have hblank : trim isWsp (' ' :: f.2) = trim isWsp f.2 := by
    have := trim_append (p := isWsp) (s := f.2) (a := [' ']) (b := []) (by simp [isWsp]) (by simp)
    simpa using this
  rw [hline, readField, if_pos (by simp), List.takeWhile_append_of_pos hne, List.dropWhile_append_of_pos hne]
  simp [hblank]

theorem read_written {fs : List Field} (hfs : ∀ f ∈ fs, Clean f) :
    ((((fs.flatMap writeField ++ crlf).splitOn '\n').map stripCR).takeWhile (· ≠ [])).filterMap readField =
      fs.map fun f => (f.1, trim isWsp f.2) := by
  induction fs with
  | nil => decide
  | cons f fs ih =>
    obtain ⟨hcolon, hname, hvalue⟩ := hfs f List.mem_cons_self
    have hsplit : ((f :: fs).flatMap writeField ++ crlf).splitOn '\n' =
        (f.1 ++ ": ".toList ++ f.2 ++ ['\r']) :: (fs.flatMap writeField ++ crlf).splitOn '\n' := by
      rw [← splitOn_line (by simp [hname, hvalue])]
      simp [writeField, crlf]
    rw [hsplit, List.map_cons, stripCR_append, List.takeWhile_cons_of_pos (by simp), List.filterMap_cons_some
      (readField_written hcolon), ih fun g hg => hfs g (List.mem_cons_of_mem _ hg), List.map_cons]

/-- The fields of a head of clean fields are those written, without blanks around their values. -/
theorem readHead_writeHead {status : Text} {fs : List Field} (hstatus : '\n' ∉ status) (hfs : ∀ f ∈ fs, Clean f) :
    readHead (writeHead status fs) = fs.map fun f => (f.1, trim isWsp f.2) := by
  have hfirst : (writeHead status fs).splitOn '\n' =
      (status ++ ['\r']) :: (fs.flatMap writeField ++ crlf).splitOn '\n' := by
    rw [← splitOn_line (by simp [hstatus])]
    simp [writeHead, crlf]
  rw [readHead, hfirst, List.map_cons, List.drop_succ_cons, List.drop_zero]
  exact read_written hfs

end Lib.HttpHead
