import CaptivoAccess.Lib.Utf8

/-! Slices of a string by bytes. A slice of the UTF-8 of a text may begin and end within a
rune: it is then the rest of a rune, whole runes, and the beginning of one. -/

namespace Lib.Utf8

/-- A byte within a sequence and not at its front. -/
def Follows (b : UInt8) : Prop := 0x80 ≤ b ∧ b < 0xC0

theorem decodeRune_follows {b : UInt8} (h : Follows b) (r : Bytes) : decodeRune (b :: r) = some (runeError, r) := by
  have hlead : lead b = none := by
    rw [lead, if_pos]
    exact UInt8.lt_trans h.2 (by decide)
  simp only [decodeRune, if_neg (UInt8.not_lt.2 h.1), hlead]

theorem follows_ofNat {n : ℕ} (h : n < 64) : Follows (UInt8.ofNat (0x80 + n)) := by
  have hb : (UInt8.ofNat (0x80 + n)).toNat = 0x80 + n := toNat_ofNat_lt (by omega)
  rw [Follows, UInt8.le_iff_toNat_le, UInt8.lt_iff_toNat_lt, hb]
  exact ⟨Nat.le_add_right _ _, by change _ < 0xC0; omega⟩

theorem encodeRune_cons (c : ℕ) : ∃ b fs, encodeRune c = b :: fs ∧ ∀ f ∈ fs, Follows f := by
  unfold encodeRune
  split_ifs
  · exact ⟨_, [], rfl, fun f hf => (nomatch hf)⟩
  · refine ⟨_, _, rfl, fun f hf => ?_⟩
    rw [List.mem_singleton.1 hf]
    exact follows_ofNat (Nat.mod_lt _ (by decide))
  · refine ⟨_, _, rfl, fun f hf => ?_⟩
    rcases List.mem_pair.1 hf with rfl | rfl <;> exact ⟨by decide, by decide⟩
  · refine ⟨_, _, rfl, fun f hf => ?_⟩
    rcases List.mem_pair.1 hf with rfl | rfl <;> exact follows_ofNat (Nat.mod_lt _ (by decide))
  · refine ⟨_, _, rfl, fun f hf => ?_⟩
    rcases List.mem_cons.1 hf with rfl | hf
    · exact follows_ofNat (Nat.mod_lt _ (by decide))
    · rcases List.mem_pair.1 hf with rfl | rfl <;> exact follows_ofNat (Nat.mod_lt _ (by decide))

/-- A rune without its last bytes. -/
def CutRune (bs : Bytes) : Prop := ∃ (c : Char) (rest : Bytes), encodeRune c.toNat = bs ++ rest ∧ rest ≠ []

theorem CutRune.follows {b : UInt8} {p : Bytes} (h : CutRune (b :: p)) : ∀ f ∈ p, Follows f := by
  obtain ⟨c, rest, hc, -⟩ := h
  obtain ⟨b', fs, hfs, hfollows⟩ := encodeRune_cons c.toNat
  rw [hc, List.cons_append] at hfs
  intro f hf
  refine hfollows f ?_
  rw [← (List.cons.inj hfs).2]
  exact List.mem_append_left _ hf

theorem CutRune.decodeRune_eq {b : UInt8} {p : Bytes} (h : CutRune (b :: p)) : decodeRune (b :: p) = some (runeError, p) := by
  obtain ⟨c, rest, hc, hrest⟩ := h
  have hwhole : decodeRune (b :: (p ++ rest)) = some (c.toNat, []) := by
    rw [← List.cons_append, ← hc, ← List.append_nil (encodeRune c.toNat)]
    exact decodeRune_encodeRune c []
  simp only [decodeRune] at hwhole ⊢
  split_ifs at hwhole ⊢
  · rw [Option.some.injEq, Prod.mk.injEq] at hwhole
    exact absurd (List.append_eq_nil_iff.1 hwhole.2).2 hrest
  · cases hlead : lead b with
    | none => rfl
    | some klha =>
      obtain ⟨k, lo, hi, acc⟩ := klha
      simp only [hlead] at hwhole ⊢
      cases htails : tails k lo hi acc p with
      | none => rfl
      | some cr =>
        obtain ⟨c', r⟩ := cr
        rw [tails_append rest htails, Option.getD_some, Option.some.injEq, Prod.mk.injEq] at hwhole
        exact absurd (List.append_eq_nil_iff.1 hwhole.2).2 hrest

/-- Where the rune `j` of a text begins. -/
def offset (t : List Char) (j : ℕ) : ℕ := (encodeText (t.take j)).length

variable (t : List Char)

theorem offset_zero : offset t 0 = 0 := rfl

theorem offset_cons_succ (c : Char) (t : List Char) (j : ℕ) :
    offset (c :: t) (j + 1) = (encodeRune c.toNat).length + offset t j := by
  rw [offset, List.take_succ_cons, encodeText_cons, List.length_append, offset]

theorem offset_append (t t' : List Char) (j : ℕ) : offset (t ++ t') (t.length + j) = (encodeText t).length + offset t' j := by
  rw [offset, List.take_length_add_append, encodeText_append, List.length_append, offset]

theorem offset_left (t t' : List Char) : offset (t ++ t') t.length = (encodeText t).length := offset_append t t' 0

theorem offset_mono {j k : ℕ} (h : j ≤ k) : offset t j ≤ offset t k := by
  obtain ⟨r, hr⟩ := List.take_prefix_take_left (l := t) h
  rw [offset, offset, ← hr, encodeText_append, List.length_append]
  exact Nat.le_add_right _ _

theorem offset_le (j : ℕ) : offset t j ≤ (encodeText t).length := by
  obtain ⟨r, hr⟩ := List.take_prefix j t
  conv_rhs => rw [← hr, encodeText_append, List.length_append]
  exact Nat.le_add_right _ _

/-- What is left from a byte on: the rest of a rune, and the runes that begin there or later. -/
theorem drop_encodeText {t : List Char} {s : ℕ} (hs : s ≤ (encodeText t).length) :
    ∃ pre post fs, t = pre ++ post ∧ (encodeText t).drop s = fs ++ encodeText post ∧ (∀ f ∈ fs, Follows f) ∧
      s + fs.length = (encodeText pre).length ∧ ∀ j < pre.length, offset t j < s := by
  induction t generalizing s with
  | nil =>
    have hzero : s = 0 := Nat.le_zero.1 hs
    subst hzero
    exact ⟨[], [], [], rfl, rfl, fun f hf => (nomatch hf), rfl, fun j hj => absurd hj (Nat.not_lt_zero j)⟩
  | cons c t ih =>
    rcases Nat.eq_zero_or_pos s with rfl | hpos
    · exact ⟨[], c :: t, [], rfl, rfl, fun f hf => (nomatch hf), rfl, fun j hj => absurd hj (Nat.not_lt_zero j)⟩
    rw [encodeText_cons, List.length_append] at hs
    rcases Nat.lt_or_ge s (encodeRune c.toNat).length with hlt | hge
    · -- the byte is within the first rune
      refine ⟨[c], t, (encodeRune c.toNat).drop s, rfl, ?_, fun f hf => ?_, ?_, fun j hj => ?_⟩
      · rw [encodeText_cons, List.drop_append_of_le_length hlt.le]
      · obtain ⟨b, fs, hfs, hfollows⟩ := encodeRune_cons c.toNat
        obtain ⟨s, rfl⟩ := Nat.exists_eq_succ_of_ne_zero hpos.ne'
        rw [hfs, List.drop_succ_cons] at hf
        exact hfollows f (List.mem_of_mem_drop hf)
      · simp only [encodeText_cons, encodeText_nil, List.append_nil, List.length_drop]
        omega
      · rw [Nat.lt_one_iff.1 hj, offset_zero]
        exact hpos
    · obtain ⟨pre, post, fs, rfl, hdrop, hfollows, hlen, hbelow⟩ := @ih (s - (encodeRune c.toNat).length) (by omega)
      refine ⟨c :: pre, post, fs, rfl, ?_, hfollows, ?_, fun j hj => ?_⟩
      · rw [encodeText_cons, List.drop_append, List.drop_eq_nil_of_le hge, List.nil_append, hdrop]
      · rw [encodeText_cons, List.length_append]
        omega
      · cases j with
        | zero =>
          rw [offset_zero]
          exact hpos
        | succ j =>
          have hj' := hbelow j (Nat.lt_of_succ_lt_succ hj)
          rw [offset_cons_succ]
          omega

/-- What there is up to a byte: the runes that end there or before, and the beginning of one. -/
theorem take_encodeText (m : ℕ) :
    ∃ mid post part, t = mid ++ post ∧ (encodeText t).take m = encodeText mid ++ part ∧ (part = [] ∨ CutRune part) ∧
      (encodeText mid).length ≤ m ∧ ∀ k, mid.length < k → k ≤ t.length → m < offset t k := by
  induction t generalizing m with
  | nil => exact ⟨[], [], [], rfl, List.take_nil, Or.inl rfl, Nat.zero_le m, fun k hk hle => by simp at hk hle; omega⟩
  | cons c t ih =>
    rcases Nat.lt_or_ge m (encodeRune c.toNat).length with hlt | hge
    · -- the byte is within the first rune
      refine ⟨[], c :: t, (encodeRune c.toNat).take m, rfl, ?_, Or.inr ⟨c, (encodeRune c.toNat).drop m, ?_, ?_⟩, Nat.zero_le m,
        fun k hk _ => ?_⟩
      · rw [encodeText_cons, List.take_append_of_le_length hlt.le]
        rfl
      · rw [List.take_append_drop]
      · intro hnil
        exact absurd (List.drop_eq_nil_iff.1 hnil) (Nat.not_le.2 hlt)
      · obtain ⟨k, rfl⟩ := Nat.exists_eq_succ_of_ne_zero (Nat.pos_iff_ne_zero.1 hk)
        rw [offset_cons_succ]
        omega
    · obtain ⟨mid, post, part, rfl, htake, hpart, hlen, habove⟩ := ih (m - (encodeRune c.toNat).length)
      refine ⟨c :: mid, post, part, rfl, ?_, hpart, ?_, fun k hk hle => ?_⟩
      · rw [encodeText_cons, List.take_append, List.take_of_length_le hge, htake, encodeText_cons, List.append_assoc]
      · rw [encodeText_cons, List.length_append]
        omega
      · obtain ⟨k, rfl⟩ := Nat.exists_eq_succ_of_ne_zero (Nat.ne_zero_of_lt hk)
        have hk' := habove k (Nat.lt_of_succ_lt_succ hk) (Nat.le_of_succ_le_succ hle)
        rw [offset_cons_succ]
        omega

end Lib.Utf8
