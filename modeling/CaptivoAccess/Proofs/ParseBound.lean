import CaptivoAccess.Sanity.GuacProto
import CaptivoAccess.Spec.GuacObserve

/-! When the observers' parser stays within the message. `parseInstruction`
allocates as many runes as a length prefix announces before it reads any, so a
message is harmless exactly when no length prefix announces more than follows it. -/

namespace Captivo.Guac

open Lib.Utf8

/-- `SetReadLimit(32 << 20)`. -/
def readLimit : ℕ := 32 * 2 ^ 20

/-- Where an element can begin in a message: at its start, or behind a whole element, that
is a length, a dot, that many runes and a comma or semicolon. -/
inductive ElementStart (raw : Bytes) : Bytes → Prop
  | first : ElementStart raw raw
  | next {lenStr value rest : Bytes} {n : ℕ} {runes : List ℕ} {sep : UInt8} :
      ElementStart raw (lenStr ++ 46 :: value) → 46 ∉ lenStr → atoi lenStr = ((n : ℤ), true) →
      takeRunes n value = some (runes, sep :: rest) → sep = 44 ∨ sep = 59 → ElementStart raw rest

/-- No element announces more runes than there are bytes behind its dot. -/
def LengthsFit (raw : Bytes) : Prop :=
  ∀ (lenStr value : Bytes) (n : ℕ), ElementStart raw (lenStr ++ 46 :: value) → 46 ∉ lenStr →
    atoi lenStr = ((n : ℤ), true) → n ≤ value.length

/-- The call came back, and no slice it asked for was longer than the input left. -/
def Call.Returns (c : Call) : Prop := c.fault ≠ some .panic ∧ ∀ r ∈ c.requests, r.len ≤ r.left

instance (c : Call) : Decidable c.Returns :=
  inferInstanceAs (Decidable (c.fault ≠ some .panic ∧ ∀ r ∈ c.requests, r.len ≤ r.left))

/-- A separator that keeps the loop going is a byte of its own behind the value. -/
theorem readValue_separator {n : ℕ} {rest rest' : Bytes} (hn : 4 * n ≤ maxAlloc) :
    (∃ val sep, readValue n rest = .ok (val, sep, rest') ∧ (sep = 44 ∨ sep = 59)) ↔
      ∃ runes, ∃ b : UInt8, takeRunes n rest = some (runes, b :: rest') ∧ (b = 44 ∨ b = 59) := by
  constructor
  · rintro ⟨val, sep, hv, hsep⟩
    obtain ⟨-, runes, r, hr, -, hd⟩ := readValue_ok.mp hv
    obtain ⟨b, rfl, -, hb⟩ := decodeRune_ascii (by omega) hd
    refine ⟨runes, b, hr, ?_⟩
    rcases hsep with rfl | rfl
    · exact Or.inl (UInt8.toNat_inj.mp hb)
    · exact Or.inr (UInt8.toNat_inj.mp hb)
  · rintro ⟨runes, b, hr, hb⟩
    refine ⟨_, b.toNat, readValue_ok.mpr ⟨hn, runes, b :: rest', hr, rfl, ?_⟩, ?_⟩
    · rcases hb with rfl | rfl <;> rfl
    · rcases hb with rfl | rfl
      · exact Or.inl rfl
      · exact Or.inr rfl

theorem ElementStart.trans {raw bs x : Bytes} (h : ElementStart raw bs) (hx : ElementStart bs x) :
    ElementStart raw x := by
  induction hx with
  | first => exact h
  | next _ hm ha ht hs ih => exact .next ih hm ha ht hs

/-- An element begins at the start, or within what follows a whole first element. -/
theorem ElementStart.first_or {raw x : Bytes} (hx : ElementStart raw x) :
    x = raw ∨ ∃ n rest runes rest', ∃ b : UInt8, readLength raw = .ok (n, rest) ∧
      takeRunes n rest = some (runes, b :: rest') ∧ (b = 44 ∨ b = 59) ∧ ElementStart rest' x := by
  induction hx with
  | first => exact Or.inl rfl
  | next _ hm ha ht hs ih =>
    right
    rcases ih with he | ⟨n, rest, runes, rest', b, hl, ht', hs', hx⟩
    · exact ⟨_, _, _, _, _, readLength_iff.mpr ⟨_, he.symm, hm, ha⟩, ht, hs, .first⟩
    · exact ⟨n, rest, runes, rest', b, hl, ht', hs', hx.next hm ha ht hs⟩

theorem lengthsFit_of_no_length {bs : Bytes} {e : Fault} (h : readLength bs = .error e) : LengthsFit bs := by
  intro lenStr value n hx hm ha
  rcases hx.first_or with he | ⟨n, rest, -, -, -, hl, -⟩
  · rw [readLength_iff.mpr ⟨lenStr, he.symm, hm, ha⟩] at h
    cases h
  · rw [hl] at h
    cases h

/-- One round: the announced length fits, and where the element is whole the rest fits. -/
theorem lengthsFit_of_length {bs rest : Bytes} {n : ℕ} (hl : readLength bs = .ok (n, rest)) :
    LengthsFit bs ↔ n ≤ rest.length ∧
      ∀ runes rest' (b : UInt8), takeRunes n rest = some (runes, b :: rest') → b = 44 ∨ b = 59 → LengthsFit rest' := by
  obtain ⟨lenStr, hbs, hm, ha⟩ := readLength_iff.mp hl
  constructor
  · intro h
    have hstart : ElementStart bs (lenStr ++ 46 :: rest) := hbs ▸ .first
    refine ⟨h lenStr rest n hstart hm ha, ?_⟩
    intro runes rest' b ht hb lenStr' value' n' hx hm' ha'
    exact h lenStr' value' n' ((hstart.next hm ha ht hb).trans hx) hm' ha'
  · rintro ⟨hn, hrest⟩ lenStr' value' n' hx hm' ha'
    rcases hx.first_or with he | ⟨m, r, runes, rest', b, hl', ht, hb, hx'⟩
    · have hl' := readLength_iff.mpr ⟨lenStr', he.symm, hm', ha'⟩
      rw [hl, Except.ok.injEq, Prod.mk.injEq] at hl'
      obtain ⟨rfl, rfl⟩ := hl'
      exact hn
    · rw [hl, Except.ok.injEq, Prod.mk.injEq] at hl'
      obtain ⟨rfl, rfl⟩ := hl'
      exact hrest runes rest' b ht hb lenStr' value' n' hx' hm' ha'

/-- What an element loop that stays within its input leaves behind. -/
def Within (p : List Request × Except Fault (List Bytes × Bytes)) : Prop :=
  (∀ r ∈ p.1, r.len ≤ r.left) ∧ p.2 ≠ .error .panic ∧ ∀ es r, p.2 = .ok (es, r) → LengthsFit r

theorem within_error {requests : List Request} {e : Fault} :
    Within (requests, .error e) ↔ (∀ r ∈ requests, r.len ≤ r.left) ∧ e ≠ .panic := by
  simp [Within]

theorem within_more {r : Request} {val : Bytes} {p : List Request × Except Fault (List Bytes × Bytes)} :
    Within (r :: p.1, p.2.map fun er => (val :: er.1, er.2)) ↔ r.len ≤ r.left ∧ Within p := by
  obtain ⟨requests, e | ⟨es, rest⟩⟩ := p
  · simp [Within, Except.map, and_assoc]
  · simp [Within, Except.map, and_assoc]

theorem readLength_ne_panic {bs : Bytes} {e : Fault} (h : readLength bs = .error e) : e ≠ .panic := by
  rintro rfl
  unfold readLength at h
  split at h
  · cases h
  · split_ifs at h
    cases h

theorem readValue_error {n : ℕ} {rest : Bytes} {e : Fault} (h : readValue n rest = .error e) :
    (e = .panic ↔ maxAlloc < 4 * n) ∧ ∀ runes r (b : UInt8), takeRunes n rest = some (runes, b :: r) →
      4 * n ≤ maxAlloc → ¬ (b = 44 ∨ b = 59) := by
  constructor
  · unfold readValue at h
    split_ifs at h with hn
    · simp_all
    · split at h
      · cases h; simp [hn]
      · split at h
        · cases h; simp [hn]
        · cases h
  · intro runes r b ht hn hb
    obtain ⟨val, sep, hv, -⟩ := (readValue_separator hn).mpr ⟨runes, b, ht, hb⟩
    rw [h] at hv
    cases hv

theorem parseElems_within {k : ℕ} {bs : Bytes} (hk : bs.length ≤ k) (hlim : bs.length ≤ readLimit) :
    Within (parseElems k bs) ↔ LengthsFit bs := by
  induction k generalizing bs with
  | zero =>
    obtain rfl : bs = [] := List.eq_nil_of_length_eq_zero (Nat.le_zero.mp hk)
    have hfit : LengthsFit [] := lengthsFit_of_no_length (e := .eof) rfl
    simp [parseElems, within_error, hfit]
  | succ k ih =>
    cases hl : readLength bs with
    | error e =>
      simp [parseElems, hl, within_error, readLength_ne_panic hl, lengthsFit_of_no_length hl]
    | ok nr =>
      obtain ⟨n, rest⟩ := nr
      have hshort := readLength_shortens hl
      -- a length that fits into a message of the limit can be allocated
      have halloc : n ≤ rest.length → 4 * n ≤ maxAlloc := by
        intro hn
        have : readLimit ≤ 2 ^ 46 := by norm_num [readLimit]
        simp only [maxAlloc]
        omega
      rw [lengthsFit_of_length hl]
      cases hv : readValue n rest with
      | error e =>
        obtain ⟨hpanic, hsep⟩ := readValue_error hv
        simp only [parseElems, hl, hv, within_error, List.mem_singleton, forall_eq]
        constructor
        · rintro ⟨hn, -⟩
          exact ⟨hn, fun runes rest' b ht hb => absurd hb (hsep runes rest' b ht (halloc hn))⟩
        · rintro ⟨hn, -⟩
          exact ⟨hn, fun he => absurd (hpanic.mp he) (not_lt.mpr (halloc hn))⟩
      | ok vsr =>
        obtain ⟨val, sep, rest'⟩ := vsr
        have hn := (readValue_shortens hv).2
        have hlt := (readValue_shortens hv).1
        have hrest : (∀ runes r (b : UInt8), takeRunes n rest = some (runes, b :: r) → b = 44 ∨ b = 59 →
            LengthsFit r) ↔ (sep = 44 ∨ sep = 59 → LengthsFit rest') := by
          constructor
          · intro h hs
            obtain ⟨runes, b, ht, hb⟩ := (readValue_separator (halloc hn)).mp ⟨val, sep, hv, hs⟩
            exact h runes rest' b ht hb
          · intro h runes r b ht hb
            obtain ⟨val', sep', hv', hs'⟩ := (readValue_separator (halloc hn)).mpr ⟨runes, b, ht, hb⟩
            rw [hv, Except.ok.injEq, Prod.mk.injEq, Prod.mk.injEq] at hv'
            obtain ⟨-, rfl, rfl⟩ := hv'
            exact h hs'
        rw [hrest]
        simp only [parseElems, hl, hv]
        by_cases h59 : sep = 59
        · simp [Within, h59, hn]
        · by_cases h44 : sep = 44
          · rw [if_neg h59, if_pos h44, within_more, ih (by omega) (by omega)]
            simp [hn, h44]
          · simp [h59, h44, Within, hn]

theorem parseInstruction_within {bs : Bytes} (hlim : bs.length ≤ readLimit) :
    LengthsFit bs ↔ (∀ r ∈ (parseInstruction bs).1, r.len ≤ r.left) ∧ (parseInstruction bs).2 ≠ .error .panic ∧
      ∀ i r, (parseInstruction bs).2 = .ok (i, r) → LengthsFit r := by
  rw [← parseElems_within le_rfl hlim, Within]
  refine and_congr_right fun _ => ?_
  cases he : (parseElems bs.length bs).2 with
  | error e => simp [parseInstruction, he]
  | ok er =>
    obtain ⟨es, r⟩ := er
    obtain ⟨op, args, rfl⟩ := List.exists_cons_of_ne_nil (parseElems_shortens he).2
    simp [parseInstruction, he]

/-- The rounds of an observer return exactly while the lengths fit, whatever it does with the instructions. -/
theorem observeLoop_returns {σ ε : Type} (act : σ → Instruction → σ × List ε) {k : ℕ} (s : σ) {bs : Bytes}
    (hk : bs.length < k) (hlim : bs.length ≤ readLimit) :
    (∀ c ∈ (observeLoop act k s bs).calls, c.Returns) ↔ LengthsFit bs := by
  induction k generalizing s bs with
  | zero => omega
  | succ k ih =>
    rw [parseInstruction_within hlim]
    rcases hp : parseInstruction bs with ⟨requests, e | ⟨i, r⟩⟩
    · simp [observeLoop, hp, Call.Returns, and_comm]
    · have hlt : r.length < bs.length := (parseElems_shortens (parseInstruction_ok.mp (by rw [hp]))).1
      have hrest := @ih (act s i).1 r (by omega) (by omega)
      simp only [observeLoop, hp, List.mem_cons, forall_eq_or_imp, hrest]
      simp [Call.Returns]

/-- On a message within the read limit, both observers' parser calls return and stay within
the message if and only if no element announces more runes than bytes follow it. -/
theorem observers_return_iff (o : FtSession) (now : ℤ) (dir : XferDir) (s : Streams) (keys : KeyObserver)
    (raw : Bytes) (hraw : raw.length ≤ readLimit) :
    ((∀ c ∈ (ftObserve o now dir s raw).calls, c.Returns) ∧ ∀ c ∈ (keyObserve now keys raw).calls, c.Returns) ↔
      LengthsFit raw := by
  rw [ftObserve, keyObserve, observeLoop_returns _ _ (Nat.lt_succ_self _) hraw,
    observeLoop_returns _ _ (Nat.lt_succ_self _) hraw, and_self]

/-- The echo of a `sync` and a key press, with lengths that fit. -/
theorem observers_return_iff_sync_key :
    (ascii "4.sync,1.0;3.key,2.65,1.1;").length ≤ readLimit ∧
    (((∀ c ∈ (ftObserve ⟨[], [], [], [], []⟩ 0 .upload .empty (ascii "4.sync,1.0;3.key,2.65,1.1;")).calls, c.Returns) ∧
      ∀ c ∈ (keyObserve 0 ⟨true, 0, [], none, false⟩ (ascii "4.sync,1.0;3.key,2.65,1.1;")).calls, c.Returns) ↔
      LengthsFit (ascii "4.sync,1.0;3.key,2.65,1.1;")) :=
  ⟨by decide, observers_return_iff _ _ _ _ _ _ (by decide)⟩

/-- Twenty bytes that announce the largest length: the slice cannot be made, and both
observers' calls panic. -/
theorem observers_panic :
    ¬ ((∀ c ∈ (ftObserve ⟨[], [], [], [], []⟩ 0 .upload .empty (ascii "9223372036854775807.")).calls, c.Returns) ∧
      ∀ c ∈ (keyObserve 0 ⟨true, 0, [], none, false⟩ (ascii "9223372036854775807.")).calls, c.Returns) := by
  decide +kernel

end Captivo.Guac
