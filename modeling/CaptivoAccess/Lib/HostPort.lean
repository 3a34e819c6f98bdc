import CaptivoAccess.Lib.IpText

/-! A host with or without a port, as a dialer takes it apart and as a URL does. An address
of version 6 stands in brackets where a port follows it. -/

namespace Lib.HostPort

open Lib.Dns Lib.IpText

/-- A host and the port it is dialed at. None is a text without a port, or with colons or brackets where they cannot be. -/
def splitHostPort (s : Text) : Option (Text × Text) :=
  (cutLast ':' s).bind fun (front, port) =>
    if s.head? = some '[' then
      -- the first closing bracket has to be just before the last colon
      let host := s.tail.takeWhile (· ≠ ']')
      if front = '[' :: host ++ [']'] ∧ '[' ∉ host ∧ '[' ∉ port ∧ ']' ∉ port then some (host, port) else none
    else if ':' ∈ front ∨ '[' ∈ s ∨ ']' ∈ s then none
    else some (front, port)

def unbracket (s : Text) : Text := if s.head? = some '[' && s.getLast? = some ']' then s.tail.dropLast else s

/-- The host of an authority, without its port and its brackets. A port is digits, maybe none. -/
def hostname (s : Text) : Text :=
  unbracket <| match cutLast ':' s with
    | some (front, port) => if port.all Char.isDigit then front else s
    | none => s

/-- The port of an authority, which may be empty. -/
def portOf (s : Text) : Text :=
  match cutLast ':' s with
  | some (_, port) => if port.all Char.isDigit then port else []
  | none => []

/-- A host and a port as a dialer takes them. -/
def joinHostPort (host port : Text) : Text :=
  if ':' ∈ host then '[' :: host ++ ']' :: ':' :: port else host ++ ':' :: port

example : splitHostPort "[fe80::1%eth0]:80".toList = some ("fe80::1%eth0".toList, "80".toList) := by decide +kernel
example : splitHostPort "[fe80::1]".toList = none := by decide +kernel
example : splitHostPort "fe80::1:80".toList = none := by decide +kernel
example : hostname "[fe80::1]".toList = "fe80::1".toList := by decide +kernel

/-- What may follow a host in an authority: nothing, or a colon and a port. -/
def IsPort (t : Text) : Prop := t = [] ∨ ∃ port : Text, t = ':' :: port ∧ port.all Char.isDigit = true

/-- The ways to write a host in an authority. -/
def Spells (h a : Text) : Prop := ∃ t, IsPort t ∧ (a = h ++ t ∨ a = '[' :: h ++ ']' :: t)

theorem unbracket_cases (s : Text) : unbracket s = s ∨ s = '[' :: unbracket s ++ [']'] := by
  unfold unbracket
  split_ifs with h
  · refine Or.inr ?_
    simp only [Bool.and_eq_true, decide_eq_true_eq] at h
    cases s with
    | nil => simp at h
    | cons c s =>
      obtain rfl : c = '[' := by simpa using h.1
      cases s with
      | nil => simp at h
      | cons d s =>
        have hlast : (d :: s).getLast? = some ']' := by simpa [List.getLast?_cons_cons] using h.2
        rw [List.tail_cons, List.cons_append, List.dropLast_append_getLast?]
        exact hlast
  · exact Or.inl rfl

theorem spells_hostname (a : Text) : Spells (hostname a) a := by
  have hcut : ∃ s t, hostname a = unbracket s ∧ IsPort t ∧ a = s ++ t := by
    unfold hostname
    split
    · next front port hsome =>
      split_ifs with hdigits
      · exact ⟨front, ':' :: port, rfl, Or.inr ⟨port, rfl, hdigits⟩, (cutLast_eq_some hsome).1⟩
      · exact ⟨a, [], rfl, Or.inl rfl, (List.append_nil a).symm⟩
    · exact ⟨a, [], rfl, Or.inl rfl, (List.append_nil a).symm⟩
  obtain ⟨s, t, hhost, ht, ha⟩ := hcut
  refine ⟨t, ht, ?_⟩
  rw [hhost]
  rcases unbracket_cases s with hs | hs
  · exact Or.inl (by rw [hs, ha])
  · refine Or.inr ?_
    rw [ha]
    nth_rewrite 1 [hs]
    simp

theorem splitHostPort_bracketed {s h port : Text} (hs : s.head? = some '[') (h' : splitHostPort s = some (h, port)) :
    h = s.tail.takeWhile (· ≠ ']') ∧ s = '[' :: h ++ ']' :: ':' :: port := by
  obtain ⟨⟨front, port'⟩, hcut, hrest⟩ := Option.bind_eq_some_iff.1 h'
  simp only [hs, if_true] at hrest
  split_ifs at hrest with hok
  cases hrest
  refine ⟨rfl, (cutLast_eq_some hcut).1.trans ?_⟩
  rw [hok.1, List.append_assoc, List.singleton_append]

theorem splitHostPort_bare {s h port : Text} (hs : s.head? ≠ some '[') (h' : splitHostPort s = some (h, port)) :
    s = h ++ ':' :: port ∧ ':' ∉ h := by
  obtain ⟨⟨front, port'⟩, hcut, hrest⟩ := Option.bind_eq_some_iff.1 h'
  simp only [hs, if_false] at hrest
  split_ifs at hrest with hbad
  cases hrest
  exact ⟨(cutLast_eq_some hcut).1, fun hmem => hbad (Or.inl hmem)⟩

/-! Where a text has two colons. -/

def TwoColons (s : Text) : Prop := ∃ front last, cutLast ':' s = some (front, last) ∧ ':' ∈ front

theorem TwoColons.append {s : Text} (h : TwoColons s) (t : Text) : TwoColons (s ++ t) := by
  obtain ⟨front, last, hcut, hmem⟩ := h
  obtain ⟨rfl, hlast⟩ := cutLast_eq_some hcut
  cases ht : cutLast ':' t with
  | none =>
    refine ⟨front, last ++ t, ?_, hmem⟩
    rw [List.append_assoc, List.cons_append]
    exact cutLast_append (List.not_mem_append hlast (cutLast_eq_none_iff.1 ht))
  | some p =>
    obtain ⟨front', last'⟩ := p
    obtain ⟨rfl, hlast'⟩ := cutLast_eq_some ht
    refine ⟨front ++ ':' :: last ++ front', last', ?_, by simp⟩
    rw [← List.append_assoc]
    exact cutLast_append hlast'

theorem splitHostPort_twoColons {s : Text} (hs : s.head? ≠ some '[') (h : TwoColons s) : splitHostPort s = none := by
  obtain ⟨front, last, hcut, hmem⟩ := h
  simp [splitHostPort, hcut, hs, hmem]

theorem splitHostPort_no_port {s : Text} (h : ':' ∉ s) : splitHostPort s = none := by
  simp [splitHostPort, cutLast_eq_none_iff.2 h]

theorem takeWhile_closing {h : Text} (hh : ']' ∉ h) (t : Text) : (h ++ ']' :: t).takeWhile (· ≠ ']') = h := by
  have hkeep : ∀ c ∈ h, decide (c ≠ ']') = true := fun c hc => decide_eq_true fun heq => hh (heq ▸ hc)
  rw [List.takeWhile_append_of_pos hkeep, List.takeWhile_cons_of_neg (by decide), List.append_nil]

theorem splitHostPort_closed {h : Text} (hh : ']' ∉ h) : splitHostPort ('[' :: h ++ [']']) = none := by
  rw [Option.eq_none_iff_forall_ne_some]
  rintro ⟨host, port⟩ hsome
  obtain ⟨hhost, heq⟩ := splitHostPort_bracketed rfl hsome
  rw [List.cons_append, List.tail_cons, takeWhile_closing hh] at hhost
  rw [hhost] at heq
  simp at heq

theorem not_mem_of_digits {port : Text} (hport : port.all Char.isDigit = true) {c : Char} (hc : c.isDigit = false) : c ∉ port := by
  intro hmem
  rw [List.all_eq_true.1 hport c hmem] at hc
  cases hc

theorem splitHostPort_simple {h port : Text} (hcolon : ':' ∉ h) (hopen : '[' ∉ h) (hclose : ']' ∉ h)
    (hport : port.all Char.isDigit = true) : splitHostPort (h ++ ':' :: port) = some (h, port) := by
  have hhead : (h ++ ':' :: port).head? ≠ some '[' := by
    cases h with
    | nil => simp
    | cons c h => simpa using fun heq : c = '[' => hopen (heq ▸ List.mem_cons_self)
  have hclean : ¬ (':' ∈ h ∨ '[' ∈ h ++ ':' :: port ∨ ']' ∈ h ++ ':' :: port) := by
    simp [hcolon, hopen, hclose, not_mem_of_digits hport]
  rw [splitHostPort, cutLast_append (not_mem_of_digits hport rfl), Option.bind_some]
  dsimp only
  rw [if_neg hhead, if_neg hclean]

theorem splitHostPort_port {h port : Text} (hopen : '[' ∉ h) (hclose : ']' ∉ h) (hport : port.all Char.isDigit = true) :
    splitHostPort ('[' :: h ++ ']' :: ':' :: port) = some (h, port) := by
  have hcolon : ':' ∉ port := not_mem_of_digits hport rfl
  have hcut : cutLast ':' ('[' :: h ++ ']' :: ':' :: port) = some ('[' :: h ++ [']'], port) := by
    rw [← cutLast_append hcolon, List.append_assoc, List.singleton_append]
  rw [splitHostPort, hcut, Option.bind_some]
  simp only [List.cons_append, List.head?_cons, if_true, List.tail_cons, takeWhile_closing hclose]
  rw [if_pos ⟨trivial, hopen, not_mem_of_digits hport rfl, not_mem_of_digits hport rfl⟩]

end Lib.HostPort
