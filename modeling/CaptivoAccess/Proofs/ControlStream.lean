import CaptivoAccess.Lib.Run
import CaptivoAccess.Spec.Tunnel

/-! Concurrent writers on a control stream. A frame is two `Write` calls and nothing
keeps the writers apart; where the schedule does, the peer reads what was sent. -/

namespace Captivo.Tunnel

open Lib.Parse Lib.Utf8 Lib.Framed

/-- The frames that a goroutine means to write. -/
def Writer.frames (w : Writer) : List Json :=
  w.todo.filterMap fun c =>
    match c with
    | .write p _ => some p
    | _ => none

/-- What writer `i` has sent, in its order. -/
def sentBy (s : Control) (i : ℕ) : List Json := (s.sent.filter fun f => f.1 = i).map Prod.snd

/-- The peer reads the frames that were sent, each of them whole; the frames of each writer are in its
order; and the first frame that a connector reads is the hello. -/
structure Delivered (side : Side) (s : Control) : Prop where
  read : readLoop s.bytes = s.sent.map fun f => f.2.bytes
  ordered : ∀ i, (sentBy s i).Sublist (side.writer i).frames
  hello : ∀ initialPolicy pushes, side = .dataPlane initialPolicy pushes → ∀ f ∈ (readLoop s.bytes).head?, f = hello.bytes

/-- The next step of writer `i` is the header of a frame. -/
def Begins (s : Control) (i : ℕ) : Prop :=
  ∃ p orReturn todo, s.writers i = ⟨none, .write p orReturn :: todo⟩ ∧ p.bytes.length ≤ maxFrame

instance (s : Control) (i : ℕ) : Decidable (Begins s i) :=
  match h : s.writers i with
  | ⟨none, .write p orReturn :: todo⟩ =>
    decidable_of_iff (p.bytes.length ≤ maxFrame)
      ⟨fun hp => ⟨p, orReturn, todo, h, hp⟩, fun ⟨_, _, _, hw, hp⟩ => by rw [h] at hw; cases hw; exact hp⟩
  | ⟨some _, _⟩ => isFalse fun ⟨_, _, _, hw, _⟩ => by rw [h] at hw; cases hw
  | ⟨none, []⟩ => isFalse fun ⟨_, _, _, hw, _⟩ => by rw [h] at hw; cases hw
  | ⟨none, .setControl :: _⟩ => isFalse fun ⟨_, _, _, hw, _⟩ => by rw [h] at hw; cases hw
  | ⟨none, .loadControl :: _⟩ => isFalse fun ⟨_, _, _, hw, _⟩ => by rw [h] at hw; cases hw

/-- A frame is begun when no other is half written. -/
def TakesTurns (s : Control) (i : ℕ) : Prop := Begins s i → ∀ j, (s.writers j).half = none

/-- A push is begun when the hello is sent. -/
def AfterHello (s : Control) (i : ℕ) : Prop := Begins s i → i ≠ 0 → s.sent ≠ []

def Side.orderly (side : Side) (s : Control) (i : ℕ) : Prop :=
  TakesTurns s i ∧ ∀ initialPolicy pushes, side = .dataPlane initialPolicy pushes → AfterHello s i

variable {s : Control}

theorem orderly_of_not_begins {side : Side} {i : ℕ} (h : ¬ Begins s i) : side.orderly s i :=
  ⟨fun hb => absurd hb h, fun _ _ _ hb => absurd hb h⟩

theorem step_cases (s : Control) (i : ℕ) :
    (∃ p todo, s.writers i = ⟨some p, todo⟩ ∧
      step s i = { s with
        writers := Function.update s.writers i ⟨none, todo⟩
        bytes := s.bytes ++ p.bytes
        sent := s.sent ++ [(i, p)] }) ∨
    (∃ todo visible, (s.writers i).half = none ∧ todo <:+ (s.writers i).todo ∧
      step s i = { s with writers := Function.update s.writers i ⟨none, todo⟩, visible := visible }) ∨
    (∃ p orReturn todo, s.writers i = ⟨none, .write p orReturn :: todo⟩ ∧ p.bytes.length ≤ maxFrame ∧
      step s i = { s with
        writers := Function.update s.writers i ⟨some p, todo⟩
        bytes := s.bytes ++ header p.bytes.length }) := by
  unfold step
  rcases hw : s.writers i with ⟨_ | p, todo⟩
  · rcases todo with _ | ⟨_ | _ | ⟨p, orReturn⟩, todo⟩
    · refine Or.inr (Or.inl ⟨[], s.visible, rfl, List.nil_suffix, ?_⟩)
      have hself : Function.update s.writers i ⟨none, []⟩ = s.writers := by rw [← hw, Function.update_eq_self]
      rw [hself]
    · exact Or.inr (Or.inl ⟨todo, true, rfl, List.suffix_cons _ _, rfl⟩)
    · refine Or.inr (Or.inl ⟨if s.visible then todo else [], s.visible, rfl, ?_, rfl⟩)
      split_ifs
      · exact List.suffix_cons _ _
      · exact List.nil_suffix
    · by_cases hp : maxFrame < p.bytes.length
      · refine Or.inr (Or.inl ⟨if orReturn then [] else todo, s.visible, rfl, ?_, ?_⟩)
        · split_ifs
          · exact List.nil_suffix
          · exact List.suffix_cons _ _
        · simp only [writeFrame, if_pos hp]
      · refine Or.inr (Or.inr ⟨p, orReturn, todo, rfl, Nat.not_lt.1 hp, ?_⟩)
        simp only [writeFrame, if_neg hp]
  · exact Or.inl ⟨p, todo, rfl, rfl⟩

/-! Where the writers take turns, the bytes are whole frames and at most one header behind them. -/

structure WholeFrames (s : Control) : Prop where
  fits : ∀ f ∈ s.sent, f.2.bytes.length ≤ maxFrame
  between : (∀ i, (s.writers i).half = none) → s.bytes = (s.sent.map fun f => f.2.bytes).flatMap encode
  within : ∀ i p, (s.writers i).half = some p → p.bytes.length ≤ maxFrame ∧ (∀ j, j ≠ i → (s.writers j).half = none) ∧
    s.bytes = (s.sent.map fun f => f.2.bytes).flatMap encode ++ header p.bytes.length

theorem wholeFrames_step (h : WholeFrames s) {i : ℕ} (ht : TakesTurns s i) : WholeFrames (step s i) := by
  obtain ⟨p, todo, hw, hs⟩ | ⟨todo, visible, hw, -, hs⟩ | ⟨p, orReturn, todo, hw, hp, hs⟩ := step_cases s i
  · obtain ⟨hp, hothers, hbytes⟩ := h.within i p (by rw [hw])
    have hnone : ∀ j, (Function.update s.writers i (⟨none, todo⟩ : Writer) j).half = none := by
      intro j
      by_cases hj : j = i
      · rw [hj, Function.update_self]
      · rw [Function.update_of_ne hj]
        exact hothers j hj
    rw [hs]
    refine ⟨?_, fun _ => ?_, fun j q hq => ?_⟩
    · exact List.forall_mem_append.2 ⟨h.fits, List.forall_mem_singleton.2 hp⟩
    · simp only [hbytes, List.map_append, List.flatMap_append, List.map_cons, List.map_nil, List.flatMap_cons,
        List.flatMap_nil, List.append_nil, encode, List.append_assoc]
    · simp [hnone j] at hq
  · have hhalf : ∀ j, (Function.update s.writers i (⟨none, todo⟩ : Writer) j).half = (s.writers j).half := by
      intro j
      by_cases hj : j = i
      · rw [hj, Function.update_self, hw]
      · rw [Function.update_of_ne hj]
    rw [hs]
    refine ⟨h.fits, fun hn => h.between fun j => ?_, fun j q hq => ?_⟩
    · rw [← hhalf]
      exact hn j
    · simp only [hhalf] at hq ⊢
      exact h.within j q hq
  · have hnone := ht ⟨p, orReturn, todo, hw, hp⟩
    rw [hs]
    refine ⟨h.fits, fun hn => ?_, fun j q hq => ?_⟩
    · have hi := hn i
      simp at hi
    · by_cases hj : j = i
      · subst hj
        simp only [Function.update_self, Option.some.injEq] at hq
        subst hq
        refine ⟨hp, fun k hk => ?_, by rw [h.between hnone]⟩
        simp only [Function.update_of_ne hk, hnone k]
      · simp [Function.update_of_ne hj, hnone j] at hq

theorem readLoop_of_wholeFrames (h : WholeFrames s) : readLoop s.bytes = s.sent.map fun f => f.2.bytes := by
  have hfits : ∀ p ∈ s.sent.map (fun f => f.2.bytes), p.length ≤ maxFrame := List.forall_mem_map.2 h.fits
  have hcap : maxFrame < 2 ^ 32 := by decide
  by_cases hn : ∀ i, (s.writers i).half = none
  · rw [readLoop, h.between hn]
    exact frames_encode hcap hfits
  · obtain ⟨i, hi⟩ := not_forall.1 hn
    obtain ⟨p, hp⟩ := Option.ne_none_iff_exists'.1 hi
    obtain ⟨hle, -, hbytes⟩ := h.within i p hp
    rw [readLoop, hbytes]
    exact frames_encode_header hcap hfits hle (List.length_pos_of_ne_nil p.ne)

/-! Each writer sends its frames in order, whatever the schedule. -/

def InOrder (side : Side) (s : Control) : Prop :=
  ∀ i, (sentBy s i ++ (s.writers i).half.toList ++ (s.writers i).frames).Sublist (side.writer i).frames

theorem sentBy_append (s : Control) (w : ℕ → Writer) (bs : Bytes) (i j : ℕ) (p : Json) :
    sentBy { s with writers := w, bytes := bs, sent := s.sent ++ [(i, p)] } j =
      sentBy s j ++ if i = j then [p] else [] := by
  by_cases hij : i = j
  · simp [sentBy, hij]
  · simp [sentBy, hij]

theorem inOrder_step {side : Side} (h : InOrder side s) (i : ℕ) : InOrder side (step s i) := by
  obtain ⟨p, todo, hw, hs⟩ | ⟨todo, visible, hw, htodo, hs⟩ | ⟨p, orReturn, todo, hw, -, hs⟩ := step_cases s i
  · intro j
    have hj := h j
    rw [hs, sentBy_append]
    by_cases hij : j = i
    · subst hij
      simpa [hw, Writer.frames] using hj
    · simpa [Function.update_of_ne hij, Ne.symm hij] using hj
  · intro j
    have hj := h j
    rw [hs]
    by_cases hij : j = i
    · subst hij
      refine List.Sublist.trans ?_ hj
      simp only [Function.update_self, hw]
      exact List.Sublist.append_left (htodo.sublist.filterMap _) _
    · simpa only [Function.update_of_ne hij, sentBy] using hj
  · intro j
    have hj := h j
    rw [hs]
    by_cases hij : j = i
    · subst hij
      simpa [hw, Writer.frames, sentBy] using hj
    · simpa [Function.update_of_ne hij, sentBy] using hj

/-! The hello. -/

/-- The hello is sent first, or nothing is sent and `runControl` has not come past it. -/
def HelloFirst (initialPolicy : Json) (s : Control) : Prop :=
  s.sent.head? = some (0, hello) ∨
    s.sent = [] ∧ (∀ j, j ≠ 0 → (s.writers j).half = none) ∧
      (s.writers 0 = runControl initialPolicy ∨
        s.writers 0 = ⟨none, [.write hello true, .loadControl, .write initialPolicy false]⟩ ∨
        s.writers 0 = ⟨some hello, [.loadControl, .write initialPolicy false]⟩)

theorem head?_append_of_eq {α : Type} {xs : List α} {x : α} (h : xs.head? = some x) (ys : List α) :
    (xs ++ ys).head? = some x := by
  rw [List.head?_append, h, Option.some_or]

theorem helloFirst_runControl {initialPolicy : Json} (hsent : s.sent = [])
    (hothers : ∀ j, j ≠ 0 → (s.writers j).half = none)
    (h0 : s.writers 0 = runControl initialPolicy ∨
      s.writers 0 = ⟨none, [.write hello true, .loadControl, .write initialPolicy false]⟩ ∨
      s.writers 0 = ⟨some hello, [.loadControl, .write initialPolicy false]⟩) : HelloFirst initialPolicy (step s 0) := by
  have hupdate : ∀ (w : Writer) (j : ℕ), j ≠ 0 → (Function.update s.writers 0 w j).half = none := by
    intro w j hj
    rw [Function.update_of_ne hj]
    exact hothers j hj
  rcases h0 with h0 | h0 | h0
  · refine Or.inr ⟨?_, ?_, Or.inr (Or.inl ?_)⟩ <;> simp only [step, h0, runControl]
    · exact hsent
    · exact hupdate _
    · exact Function.update_self _ _ _
  · have hwrite : writeFrame hello.bytes = some (header hello.bytes.length, hello.bytes) := by decide
    refine Or.inr ⟨?_, ?_, Or.inr (Or.inr ?_)⟩ <;> simp only [step, h0, hwrite]
    · exact hsent
    · exact hupdate _
    · exact Function.update_self _ _ _
  · refine Or.inl ?_
    simp only [step, h0, hsent]
    rfl

theorem helloFirst_step {initialPolicy : Json} (h : HelloFirst initialPolicy s) {i : ℕ}
    (ha : AfterHello s i) : HelloFirst initialPolicy (step s i) := by
  rcases h with h | ⟨hsent, hothers, h0⟩
  · obtain ⟨p, todo, -, hs⟩ | ⟨todo, visible, -, -, hs⟩ | ⟨p, orReturn, todo, -, -, hs⟩ := step_cases s i <;> rw [hs]
    · exact Or.inl (head?_append_of_eq h _)
    · exact Or.inl h
    · exact Or.inl h
  · by_cases hi : i = 0
    · subst hi
      exact helloFirst_runControl hsent hothers h0
    · -- a push can only look for the stream: it has begun no frame and may not begin one
      obtain ⟨p, todo, hw, -⟩ | ⟨todo, visible, -, -, hs⟩ | ⟨p, orReturn, todo, hw, hp, -⟩ := step_cases s i
      · have hnone := hothers i hi
        simp [hw] at hnone
      · rw [hs]
        refine Or.inr ⟨hsent, fun j hj => ?_, ?_⟩
        · by_cases hji : j = i
          · simp [hji]
          · simpa [Function.update_of_ne hji] using hothers j hj
        · simpa only [Function.update_of_ne (Ne.symm hi)] using h0
      · exact absurd hsent (ha ⟨p, orReturn, todo, hw, hp⟩ hi)

/-! Runs. -/

/-- What an orderly step keeps. -/
structure Orderly (side : Side) (s : Control) : Prop where
  whole : WholeFrames s
  ordered : InOrder side s
  hello : ∀ initialPolicy pushes, side = .dataPlane initialPolicy pushes → HelloFirst initialPolicy s

theorem half_start (side : Side) (i : ℕ) : (side.start.writers i).half = none := by
  rcases side with ⟨initialPolicy, pushes⟩ | ⟨telemetry, acks⟩
  · rcases i with _ | i <;> rfl
  · rcases i with _ | _ | i <;> rfl

theorem orderly_start (side : Side) : Orderly side side.start := by
  refine ⟨⟨List.forall_mem_nil _, fun _ => rfl, ?_⟩, ?_, ?_⟩
  · intro i p hp
    rw [half_start] at hp
    cases hp
  · intro i
    rw [half_start]
    exact List.Sublist.refl _
  · rintro initialPolicy pushes rfl
    exact Or.inr ⟨rfl, fun j _ => half_start _ j, Or.inl rfl⟩

theorem orderly_step (side : Side) (s : Control) (i : ℕ) (h : Orderly side s) (ho : side.orderly s i) :
    Orderly side (step s i) :=
  ⟨wholeFrames_step h.whole ho.1, inOrder_step h.ordered i, fun initialPolicy pushes hside =>
    helloFirst_step (h.hello initialPolicy pushes hside) (ho.2 initialPolicy pushes hside)⟩

theorem delivered_of_orderly {side : Side} (h : Orderly side s) : Delivered side s := by
  have hread := readLoop_of_wholeFrames h.whole
  refine ⟨hread, fun i => ?_, fun initialPolicy pushes hside f hf => ?_⟩
  · have hsub := h.ordered i
    rw [List.append_assoc] at hsub
    exact (List.sublist_append_left _ _).trans hsub
  · rw [hread, List.head?_map] at hf
    rcases h.hello initialPolicy pushes hside with hfirst | ⟨hsent, -, -⟩
    · rw [hfirst] at hf
      exact (Option.some.inj hf).symm
    · simp [hsent] at hf

/-- In every run in which a frame is begun only when none is half written, and a push only after the
hello, the peer has at every moment read the frames that were sent. -/
theorem orderly_run_delivers (side : Side) (schedule : List ℕ)
    (h : Lib.Run.Meets step side.orderly side.start schedule) : Delivered side (run side.start schedule) :=
  delivered_of_orderly (Lib.Run.invariant (orderly_step side) (orderly_start side) h)

/-- A policy that allows everything. -/
def openPolicy : Json := ⟨ascii "\x7b\"egressAllowedTargets\":\"\",\"logLevel\":\"info\"\x7d", by decide⟩

def openSide : Side := .dataPlane openPolicy fun _ => openPolicy

/-- The hello, and then a push. -/
theorem orderly_run_delivers_push :
    Lib.Run.Meets step openSide.orderly openSide.start [0, 0, 0, 1, 1, 1] ∧
      Delivered openSide (run openSide.start [0, 0, 0, 1, 1, 1]) := by
  have hmeets : Lib.Run.Meets step openSide.orderly openSide.start [0, 0, 0, 1, 1, 1] := by
    -- the second step and the fifth begin a frame
    refine ⟨orderly_of_not_begins (by decide), ⟨?_, ?_⟩, orderly_of_not_begins (by decide),
      orderly_of_not_begins (by decide), ⟨?_, ?_⟩, orderly_of_not_begins (by decide), trivial⟩
    · rintro - (_ | _ | j) <;> rfl
    · exact fun _ _ _ _ hi => absurd rfl hi
    · rintro - (_ | _ | j) <;> rfl
    · exact fun _ _ _ _ _ => by decide
  exact ⟨hmeets, orderly_run_delivers openSide _ hmeets⟩

/-- A push that finds the stream before the hello is sent is the first frame that the connector reads;
one that comes between the two writes of the hello leaves two frames sent of which none is read. -/
theorem push_overtakes_hello :
    (readLoop (run openSide.start [0, 1, 1, 1, 0, 0]).bytes).head? = some openPolicy.bytes ∧
    (run openSide.start [0, 0, 1, 1, 1, 0]).sent = [(1, openPolicy), (0, hello)] ∧
    openPolicy.bytes ∉ readLoop (run openSide.start [0, 0, 1, 1, 1, 0]).bytes ∧
    hello.bytes ∉ readLoop (run openSide.start [0, 0, 1, 1, 1, 0]).bytes := by
  refine ⟨?_, ?_, ?_, ?_⟩ <;> decide +kernel

end Captivo.Tunnel
