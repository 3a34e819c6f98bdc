import Mathlib.Tactic

/-! JSON as text. A JavaScript string is a list of UTF-16 code units; `quote` is
`JSON.stringify` of a string and `render` writes a JSON value without blanks. Two
values with the same text are the same (`render_injective`): a value is read off
the front of a text whatever follows it, as long as no digit does. -/

namespace Lib.JsonText

abbrev Units := List UInt16

/-- An ASCII text. -/
def units (s : String) : Units := s.toList.map fun c => UInt16.ofNat c.toNat

def isHigh (c : UInt16) : Bool := 0xD800 ≤ c && c ≤ 0xDBFF

def isLow (c : UInt16) : Bool := 0xDC00 ≤ c && c ≤ 0xDFFF

def hexDigit (n : ℕ) : UInt16 := if n < 10 then UInt16.ofNat (48 + n) else UInt16.ofNat (87 + n)

/-- `\uXXXX`. -/
def escapeHex (c : UInt16) : Units :=
  [92, 117, hexDigit (c.toNat / 4096), hexDigit (c.toNat / 256 % 16), hexDigit (c.toNat / 16 % 16),
    hexDigit (c.toNat % 16)]

/-- A unit that is not half of a surrogate pair. -/
def escapeUnit (c : UInt16) : Units :=
  if c = 34 then [92, 34]
  else if c = 92 then [92, 92]
  else if c = 8 then [92, 98]
  else if c = 9 then [92, 116]
  else if c = 10 then [92, 110]
  else if c = 12 then [92, 102]
  else if c = 13 then [92, 114]
  else if c < 32 ∨ isHigh c ∨ isLow c then escapeHex c
  else [c]

/-- The units of a string between its quotes; `low` says that the first one ends a pair. -/
def quoteFrom : Bool → Units → Units
  | _, [] => []
  | true, c :: rest => c :: quoteFrom false rest
  | false, c :: rest =>
    if isHigh c && rest.head?.any isLow then c :: quoteFrom true rest else escapeUnit c ++ quoteFrom false rest

def quote (s : Units) : Units := 34 :: quoteFrom false s ++ [34]

def isNumUnit (c : UInt16) : Bool := (48 ≤ c && c ≤ 57) || c = 43 || c = 45 || c = 46 || c = 69 || c = 101

/-- The text of a finite number. -/
structure NumText where
  text : Units
  nonempty : text ≠ []
  units : ∀ c ∈ text, isNumUnit c = true

inductive Json where
  | null
  | bool (b : Bool)
  | num (n : NumText)
  | str (s : Units)
  | arr (xs : List Json)
  | obj (fs : List (Units × Json))

/-- The texts joined by commas, up to the closing bracket. -/
def joinUntil (close : UInt16) : List Units → Units
  | [] => [close]
  | [x] => x ++ [close]
  | x :: y :: xs => x ++ 44 :: joinUntil close (y :: xs)

def field (k v : Units) : Units := quote k ++ 58 :: v

mutual

def render : Json → Units
  | .null => units "null"
  | .bool b => units (if b then "true" else "false")
  | .num n => n.text
  | .str s => quote s
  | .arr xs => 91 :: joinUntil 93 (renderAll xs)
  | .obj fs => 123 :: joinUntil 125 (renderFields fs)

def renderAll : List Json → List Units
  | [] => []
  | x :: xs => render x :: renderAll xs

def renderFields : List (Units × Json) → List Units
  | [] => []
  | (k, v) :: fs => field k (render v) :: renderFields fs

end

/-! A string is read off the front of a text. -/

def hexVal (c : UInt16) : ℕ := if c < 58 then c.toNat - 48 else c.toNat - 87

def readUnit : Units → Option (UInt16 × Units)
  | [] => none
  | c :: r =>
    if c = 34 then none
    else if c = 92 then
      match r with
      | [] => none
      | e :: r =>
        if e = 117 then
          match r with
          | a :: b :: c :: d :: r =>
            some (UInt16.ofNat (((hexVal a * 16 + hexVal b) * 16 + hexVal c) * 16 + hexVal d), r)
          | _ => none
        else some (if e = 98 then 8 else if e = 116 then 9 else if e = 110 then 10 else if e = 102 then 12
          else if e = 114 then 13 else e, r)
    else some (c, r)

theorem hexVal_hexDigit {n : ℕ} (h : n < 16) : hexVal (hexDigit n) = n := by
  interval_cases n <;> rfl

theorem readUnit_escapeHex (c : UInt16) (r : Units) : readUnit (escapeHex c ++ r) = some (c, r) := by
  have hc : c.toNat < 65536 := c.toNat_lt
  have hsum : ((c.toNat / 4096 * 16 + c.toNat / 256 % 16) * 16 + c.toNat / 16 % 16) * 16 + c.toNat % 16 = c.toNat := by
    omega
  simp only [escapeHex, List.cons_append, List.nil_append, readUnit]
  rw [hexVal_hexDigit (by omega), hexVal_hexDigit (by omega), hexVal_hexDigit (by omega), hexVal_hexDigit (by omega),
    hsum, UInt16.ofNat_toNat]
  rfl

variable {c : UInt16}

theorem readUnit_plain (r : Units) (h1 : c ≠ 34) (h2 : c ≠ 92) : readUnit (c :: r) = some (c, r) := by
  simp [readUnit, h1, h2]

theorem readUnit_escapeUnit (c : UInt16) (r : Units) : readUnit (escapeUnit c ++ r) = some (c, r) := by
  unfold escapeUnit
  split_ifs with h1 h2 h3 h4 h5 h6 h7 h8
  · rw [h1]; rfl
  · rw [h2]; rfl
  · rw [h3]; rfl
  · rw [h4]; rfl
  · rw [h5]; rfl
  · rw [h6]; rfl
  · rw [h7]; rfl
  · exact readUnit_escapeHex c r
  · exact readUnit_plain r h1 h2

theorem surrogate_ne (h : isHigh c = true ∨ isLow c = true) : c ≠ 34 ∧ c ≠ 92 := by
  refine ⟨?_, ?_⟩ <;> (intro hc; subst hc; revert h; decide)

/-- `true` is only said of a unit that ends a pair. -/
def LowFirst (low : Bool) (s : Units) : Prop := low = true → s.head?.all isLow = true

theorem readUnit_quoteFrom {low : Bool} {s : Units} (hl : LowFirst low (c :: s)) (r : Units) :
    ∃ low', LowFirst low' s ∧
      readUnit (quoteFrom low (c :: s) ++ 34 :: r) = some (c, quoteFrom low' s ++ 34 :: r) := by
  cases low with
  | true =>
    have hc : isLow c = true := by simpa using hl rfl
    obtain ⟨h1, h2⟩ := surrogate_ne (Or.inr hc)
    exact ⟨false, fun h => by simp at h, readUnit_plain _ h1 h2⟩
  | false =>
    simp only [quoteFrom]
    split_ifs with hp
    · rw [Bool.and_eq_true] at hp
      obtain ⟨h1, h2⟩ := surrogate_ne (Or.inl hp.1)
      refine ⟨true, fun _ => ?_, readUnit_plain _ h1 h2⟩
      cases s with
      | nil => rfl
      | cons d s => simpa using hp.2
    · refine ⟨false, fun h => by simp at h, ?_⟩
      rw [List.append_assoc]
      exact readUnit_escapeUnit c _

theorem quoteFrom_injective {s s' r r' : Units} {low low' : Bool} (hl : LowFirst low s) (hl' : LowFirst low' s')
    (h : quoteFrom low s ++ 34 :: r = quoteFrom low' s' ++ 34 :: r') : s = s' ∧ r = r' := by
  have hnone : ∀ (low : Bool) (r : Units), readUnit (quoteFrom low [] ++ 34 :: r) = none := by
    intro low r
    cases low <;> simp [quoteFrom, readUnit]
  induction s generalizing s' low low' with
  | nil =>
    cases s' with
    | nil =>
      have hq : ∀ low : Bool, quoteFrom low [] = [] := fun low => by cases low <;> rfl
      rw [hq, hq] at h
      exact ⟨rfl, (List.cons.inj h).2⟩
    | cons c' s' =>
      obtain ⟨low'', -, hr⟩ := readUnit_quoteFrom hl' r'
      rw [← h, hnone] at hr
      cases hr
  | cons c s ih =>
    obtain ⟨l1, hl1, hr⟩ := readUnit_quoteFrom hl r
    cases s' with
    | nil =>
      rw [h, hnone] at hr
      cases hr
    | cons c' s' =>
      obtain ⟨l2, hl2, hr'⟩ := readUnit_quoteFrom hl' r'
      rw [h, hr'] at hr
      simp only [Option.some.injEq, Prod.mk.injEq] at hr
      obtain ⟨rfl, hrest⟩ := hr
      obtain ⟨rfl, hrr⟩ := ih hl1 hl2 hrest.symm
      exact ⟨rfl, hrr⟩

theorem quote_injective {s s' r r' : Units} (h : quote s ++ r = quote s' ++ r') : s = s' ∧ r = r' := by
  simp only [quote, List.cons_append, List.append_assoc, List.nil_append, List.cons.injEq, true_and] at h
  exact quoteFrom_injective (fun h => by simp at h) (fun h => by simp at h) h

/-! A value is read off the front of a text. -/

/-- What follows a value does not go on with a number. -/
def Ends (r : Units) : Prop := ∀ c ∈ r.head?, isNumUnit c = false

theorem ends_nil : Ends [] := by
  intro c hc
  simp at hc

theorem ends_cons (r : Units) (h : isNumUnit c = false) : Ends (c :: r) := by
  intro d hd
  simp only [List.head?_cons, Option.mem_def, Option.some.injEq] at hd
  rwa [← hd]

theorem number_injective {t t' r r' : Units} (ht : ∀ c ∈ t, isNumUnit c = true) (ht' : ∀ c ∈ t', isNumUnit c = true)
    (hr : Ends r) (hr' : Ends r') (h : t ++ r = t' ++ r') : t = t' ∧ r = r' := by
  have hspan : ∀ {t r : Units}, (∀ c ∈ t, isNumUnit c = true) → Ends r → (t ++ r).takeWhile isNumUnit = t := by
    intro t r ht hr
    rw [List.takeWhile_append_of_pos ht]
    cases r with
    | nil => simp
    | cons c r =>
      have hc : isNumUnit c = false := hr c rfl
      simp [hc]
  have htt : t = t' := by rw [← hspan ht hr, h, hspan ht' hr']
  refine ⟨htt, ?_⟩
  rw [htt] at h
  exact List.append_cancel_left h

/-- The kind of value whose text starts with this unit; 7 when no text does. -/
def lead (c : UInt16) : ℕ :=
  if c = 110 then 0
  else if c = 116 then 1
  else if c = 102 then 2
  else if c = 34 then 3
  else if c = 91 then 4
  else if c = 123 then 5
  else if isNumUnit c then 6
  else 7

def kind : Json → ℕ
  | .null => 0
  | .bool b => if b then 1 else 2
  | .num _ => 6
  | .str _ => 3
  | .arr _ => 4
  | .obj _ => 5

theorem lead_number (h : isNumUnit c = true) : lead c = 6 := by
  unfold lead
  split_ifs with h1 h2 h3 h4 h5 h6
  · rw [h1] at h; revert h; decide
  · rw [h2] at h; revert h; decide
  · rw [h3] at h; revert h; decide
  · rw [h4] at h; revert h; decide
  · rw [h5] at h; revert h; decide
  · rw [h6] at h; revert h; decide
  · rfl

theorem render_lead (a : Json) : ∃ c t, render a = c :: t ∧ lead c = kind a := by
  cases a with
  | null => exact ⟨110, units "ull", by decide, by decide⟩
  | bool b =>
    cases b with
    | true => exact ⟨116, units "rue", by decide, by decide⟩
    | false => exact ⟨102, units "alse", by decide, by decide⟩
  | num n =>
    obtain ⟨c, t, ht⟩ := List.exists_cons_of_ne_nil n.nonempty
    exact ⟨c, t, ht, lead_number (n.units c (by rw [ht]; exact List.mem_cons_self))⟩
  | str s => exact ⟨34, quoteFrom false s ++ [34], rfl, rfl⟩
  | arr xs => exact ⟨91, joinUntil 93 (renderAll xs), rfl, rfl⟩
  | obj fs => exact ⟨123, joinUntil 125 (renderFields fs), rfl, rfl⟩

theorem kind_eq_of_render {a b : Json} {r s : Units} (h : render a ++ r = render b ++ s) : kind a = kind b := by
  obtain ⟨c, t, ha, hc⟩ := render_lead a
  obtain ⟨d, t', hb, hd⟩ := render_lead b
  rw [ha, hb] at h
  rw [← hc, ← hd, (List.cons.inj h).1]

/-- What a joined list looks like after its first text. -/
def sepUntil (close : UInt16) : List Units → Units
  | [] => [close]
  | x :: xs => 44 :: joinUntil close (x :: xs)

theorem joinUntil_cons (close : UInt16) (x : Units) (xs : List Units) :
    joinUntil close (x :: xs) = x ++ sepUntil close xs := by
  cases xs <;> rfl

theorem ends_sepUntil {close : UInt16} (h : isNumUnit close = false) (xs : List Units) (r : Units) :
    Ends (sepUntil close xs ++ r) := by
  cases xs with
  | nil => exact ends_cons _ h
  | cons x xs => exact ends_cons _ (by decide)

theorem renderAll_eq_map (xs : List Json) : renderAll xs = xs.map render := by
  induction xs with
  | nil => rfl
  | cons x xs ih => rw [renderAll, ih, List.map_cons]

theorem renderFields_eq_map (fs : List (Units × Json)) :
    renderFields fs = fs.map fun p => field p.1 (render p.2) := by
  induction fs with
  | nil => rfl
  | cons p fs ih => rw [renderFields, ih, List.map_cons]

section Joined

variable {α : Type} (text : α → Units)

/-- The text of `x` is no other's, and what follows it is not part of it. -/
def Readable (x : α) : Prop :=
  ∀ (y : α) (r s : Units), Ends r → Ends s → text x ++ r = text y ++ s → x = y ∧ r = s

theorem joinUntil_injective {close : UInt16} (hnum : isNumUnit close = false) (hsep : close ≠ 44)
    (hstart : ∀ x : α, ∃ c t, text x = c :: t ∧ c ≠ close) {xs ys : List α} (hxs : ∀ x ∈ xs, Readable text x)
    {r s : Units} (h : joinUntil close (xs.map text) ++ r = joinUntil close (ys.map text) ++ s) :
    xs = ys ∧ r = s := by
  have hne : ∀ (x : α) (l : List Units) (r s : Units), close :: s ≠ joinUntil close (text x :: l) ++ r := by
    intro x l r s heq
    obtain ⟨c, t, ht, hc⟩ := hstart x
    rw [joinUntil_cons, ht] at heq
    exact hc (List.cons.inj heq).1.symm
  induction xs generalizing ys with
  | nil =>
    cases ys with
    | nil => exact ⟨rfl, (List.cons.inj h).2⟩
    | cons y ys => exact absurd h (hne y _ s r)
  | cons x xs ih =>
    cases ys with
    | nil => exact absurd h.symm (hne x _ r s)
    | cons y ys =>
      simp only [List.map_cons, joinUntil_cons, List.append_assoc] at h
      obtain ⟨rfl, hrest⟩ :=
        hxs x List.mem_cons_self y _ _ (ends_sepUntil hnum _ r) (ends_sepUntil hnum _ s) h
      have htail : ∀ z ∈ xs, Readable text z := fun z hz => hxs z (List.mem_cons_of_mem x hz)
      cases xs with
      | nil =>
        cases ys with
        | nil => exact ⟨rfl, (List.cons.inj hrest).2⟩
        | cons z zs => exact absurd (List.cons.inj hrest).1 hsep
      | cons z zs =>
        cases ys with
        | nil => exact absurd (List.cons.inj hrest).1.symm hsep
        | cons w ws =>
          have hjoin : joinUntil close ((z :: zs).map text) ++ r = joinUntil close ((w :: ws).map text) ++ s :=
            (List.cons.inj hrest).2
          obtain ⟨hl, hr⟩ := ih htail hjoin
          exact ⟨by rw [hl], hr⟩

end Joined

def fieldText (p : Units × Json) : Units := field p.1 (render p.2)

theorem readable_field {k : Units} {v : Json} (hv : Readable render v) : Readable fieldText (k, v) := by
  intro q r s hr hs h
  obtain ⟨k', v'⟩ := q
  simp only [fieldText, field, List.append_assoc, List.cons_append] at h
  obtain ⟨rfl, htail⟩ := quote_injective h
  obtain ⟨rfl, hrs⟩ := hv v' r s hr hs (List.cons.inj htail).2
  exact ⟨rfl, hrs⟩

theorem readable_arr {xs : List Json} (hxs : ∀ x ∈ xs, Readable render x) : Readable render (.arr xs) := by
  intro b r s _ _ h
  have hk := kind_eq_of_render h
  cases b with
  | arr ys =>
    simp only [render, renderAll_eq_map, List.cons_append, List.cons.injEq, true_and] at h
    have hstart : ∀ x : Json, ∃ c t, render x = c :: t ∧ c ≠ 93 := by
      intro x
      obtain ⟨c, t, hx, hc⟩ := render_lead x
      refine ⟨c, t, hx, ?_⟩
      intro h93
      rw [h93] at hc
      cases x <;> simp [kind, lead, isNumUnit] at hc
      split at hc <;> omega
    obtain ⟨rfl, hrs⟩ := joinUntil_injective render (by decide) (by decide) hstart hxs h
    exact ⟨rfl, hrs⟩
  | bool b => cases b <;> simp [kind] at hk
  | null | num n | str t | obj fs => simp [kind] at hk

theorem readable_obj {fs : List (Units × Json)} (hfs : ∀ p ∈ fs, Readable render p.2) :
    Readable render (.obj fs) := by
  intro b r s _ _ h
  have hk := kind_eq_of_render h
  cases b with
  | obj gs =>
    simp only [render, renderFields_eq_map, List.cons_append, List.cons.injEq, true_and] at h
    have hstart : ∀ p : Units × Json, ∃ c t, fieldText p = c :: t ∧ c ≠ 125 :=
      fun p => ⟨34, _, rfl, by decide⟩
    obtain ⟨rfl, hrs⟩ := joinUntil_injective fieldText (by decide) (by decide) hstart
      (fun p hp => readable_field (hfs p hp)) h
    exact ⟨rfl, hrs⟩
  | bool b => cases b <;> simp [kind] at hk
  | null | num n | str t | arr xs => simp [kind] at hk

mutual

theorem readable : (a : Json) → Readable render a
  | .null => by
    intro b r s _ _ h
    have hk := kind_eq_of_render h
    cases b with
    | null => exact ⟨rfl, List.append_cancel_left h⟩
    | bool b => cases b <;> simp [kind] at hk
    | num n | str t | arr xs | obj fs => simp [kind] at hk
  | .bool b => by
    intro c r s _ _ h
    have hk := kind_eq_of_render h
    cases c with
    | bool c =>
      have hbc : b = c := by
        cases b <;> cases c <;> simp [kind] at hk ⊢
      subst hbc
      exact ⟨rfl, List.append_cancel_left h⟩
    | null | num n | str t | arr xs | obj fs => cases b <;> simp [kind] at hk
  | .num n => by
    intro b r s hr hs h
    have hk := kind_eq_of_render h
    cases b with
    | num m =>
      obtain ⟨ht, hrs⟩ := number_injective n.units m.units hr hs h
      cases n
      cases m
      cases ht
      exact ⟨rfl, hrs⟩
    | bool b => cases b <;> simp [kind] at hk
    | null | str t | arr xs | obj fs => simp [kind] at hk
  | .str t => by
    intro b r s _ _ h
    have hk := kind_eq_of_render h
    cases b with
    | str t' =>
      obtain ⟨rfl, hrs⟩ := quote_injective h
      exact ⟨rfl, hrs⟩
    | bool b => cases b <;> simp [kind] at hk
    | null | num n | arr xs | obj fs => simp [kind] at hk
  | .arr xs => readable_arr (readableAll xs)
  | .obj fs => readable_obj (readableFields fs)

theorem readableAll : (xs : List Json) → ∀ x ∈ xs, Readable render x
  | [] => List.forall_mem_nil _
  | x :: xs => List.forall_mem_cons.2 ⟨readable x, readableAll xs⟩

theorem readableFields : (fs : List (Units × Json)) → ∀ p ∈ fs, Readable render p.2
  | [] => List.forall_mem_nil _
  | (_, v) :: fs => List.forall_mem_cons.2 ⟨readable v, readableFields fs⟩

end

theorem render_injective : Function.Injective render := by
  intro a b h
  exact (readable a b [] [] ends_nil ends_nil (by rw [h])).1

end Lib.JsonText
