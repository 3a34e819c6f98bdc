import CaptivoAccess.Proofs.Chunking

/-! What is typed after a line that asks for a password. The mark that the next event is
masked is read off the text of an event as it is shown, and any event uses it up. So a
prompt typed where a password was expected does not mask what follows it, and outside
ssh a pause ends the masking in the middle of a line. -/

namespace Captivo.Guac

open Lib.Utf8 Lib.Run

/-! Keys. -/

/-- An instruction with the time of its message. -/
abbrev SeenKey := ℤ × Instruction

def keyOn (o : KeyObserver) (x : SeenKey) : KeyObserver × List KeyEvent := keyAct x.1 o x.2

/-- The observer after what was seen. -/
def keysAfter (o : KeyObserver) (seen : List SeenKey) : KeyObserver := (outputs keyOn o seen).1

/-- The events of what was seen. -/
def keyEvents (o : KeyObserver) (seen : List SeenKey) : List KeyEvent := (outputs keyOn o seen).2

/-- The messages of a session; `none` if the process went down. -/
def keyCalls : KeyObserver → List (ℤ × Bytes) → Option (KeyObserver × List KeyEvent)
  | o, [] => some (o, [])
  | o, c :: cs =>
    let seen := keyObserve c.1 o c.2
    if seen.crashed then none else (keyCalls seen.state cs).map fun oe => (oe.1, seen.events ++ oe.2)

/-- The instructions of the messages, with the times they were seen. -/
def keysIn (calls : List (ℤ × Bytes)) : List SeenKey := calls.flatMap fun c => (instruction.all c.2).1.map fun i => (c.1, i)

/-- The key that goes down. -/
def keyDown : Instruction → Option ℤ
  | (op, sym :: state :: _) => if op = ascii "key" ∧ state = ascii "1" then some (atoi sym).1 else none
  | _ => none

/-- What a key does to the line that is typed. -/
def typeKey (line : Bytes) (keysym : ℤ) : Bytes :=
  if keysym = ksEnter then []
  else if keysym = ksBackspace then line.dropLast
  else if 0x20 ≤ keysym ∧ keysym ≤ 0x7e then line ++ [UInt8.ofNat keysym.toNat]
  else line

def typeOn (line : Bytes) (x : SeenKey) : Bytes := ((keyDown x.2).map (typeKey line)).getD line

/-- The line that was typed since the last Enter. -/
def typedLine (seen : List SeenKey) : Bytes := seen.foldl typeOn []

/-- The key does not come so late that the observer gives the line up: it does not for ssh, nor between lines. -/
def InTime (o : KeyObserver) (x : SeenKey) : Prop :=
  keyDown x.2 = none ∨ o.ssh = true ∨ o.line = [] ∨ ∀ last ∈ o.lastKey, x.1 - last ≤ 1500 * 1000000

instance (o : KeyObserver) (x : SeenKey) : Decidable (InTime o x) := inferInstanceAs (Decidable (_ ∨ _ ∨ _ ∨ _))

/-- No line is given up before its Enter. -/
def Steady : KeyObserver → List SeenKey → Prop := Meets (fun o x => (keyOn o x).1) InTime

instance (o : KeyObserver) (seen : List SeenKey) : Decidable (Steady o seen) := inferInstanceAs (Decidable (Meets _ _ _ _))

variable {o : KeyObserver}

theorem keyCalls_eq {calls : List (ℤ × Bytes)} {oe : KeyObserver × List KeyEvent}
    (h : keyCalls o calls = some oe) : outputs keyOn o (keysIn calls) = oe := by
  induction calls generalizing o oe with
  | nil => exact Option.some.inj h
  | cons c cs ih =>
    simp only [keyCalls] at h
    split_ifs at h
    obtain ⟨rest, hrest, rfl⟩ := Option.map_eq_some_iff.1 h
    obtain ⟨h1, h2, -⟩ := observeLoop_eq (keyAct c.1) o (Nat.lt_succ_self c.2.length)
    have hone : outputs keyOn o ((instruction.all c.2).1.map fun i => (c.1, i)) = outputs (keyAct c.1) o (instruction.all c.2).1 :=
      outputs_map _ _ _ _
    have hseen : keysIn (c :: cs) = ((instruction.all c.2).1.map fun i => (c.1, i)) ++ keysIn cs := rfl
    rw [hseen, outputs_append, hone, ← ih hrest, keyObserve, h1, h2]

/-! One instruction. -/

variable {x : SeenKey}

theorem keyOn_none (h : keyDown x.2 = none) (o : KeyObserver) : keyOn o x = (o, []) := by
  obtain ⟨now, op, args⟩ := x
  match args with
  | [] => rfl
  | [_] => rfl
  | sym :: state :: rest =>
    by_cases hkey : op = ascii "key" ∧ state = ascii "1"
    · simp [keyDown, hkey] at h
    · exact if_neg hkey

variable {keysym : ℤ}

theorem keyOn_some (h : keyDown x.2 = some keysym) (o : KeyObserver) :
    keyOn o x =
      (({ (o.idle x.1).1 with lastKey := some x.1 }.press x.1 keysym).1,
        (o.idle x.1).2 ++ ({ (o.idle x.1).1 with lastKey := some x.1 }.press x.1 keysym).2) := by
  obtain ⟨now, op, args⟩ := x
  match args with
  | [] => simp [keyDown] at h
  | [_] => simp [keyDown] at h
  | sym :: state :: rest =>
    by_cases hkey : op = ascii "key" ∧ state = ascii "1"
    · simp only [keyDown, if_pos hkey, Option.some.injEq] at h
      subst h
      exact if_pos hkey
    · simp [keyDown, hkey] at h

theorem idle_inTime (h : keyDown x.2 = some keysym) (ht : InTime o x) :
    o.idle x.1 = (o, []) := by
  unfold KeyObserver.idle
  split
  · rename_i last hlast
    rw [if_neg]
    rintro ⟨hssh, hlate, hline⟩
    rcases ht with hnone | hs | hl | hsoon
    · rw [h] at hnone
      cases hnone
    · rw [hssh] at hs
      cases hs
    · exact hline hl
    · have hle := hsoon last hlast
      omega
  · rfl

theorem keyOn_inTime (h : keyDown x.2 = some keysym) (ht : InTime o x) :
    keyOn o x = { o with lastKey := some x.1 }.press x.1 keysym := by
  rw [keyOn_some h, idle_inTime h ht]
  rfl

theorem press_ne_enter (hne : keysym ≠ ksEnter) (o : KeyObserver) (now : ℤ) :
    o.press now keysym = ({ o with line := typeKey o.line keysym }, []) := by
  unfold KeyObserver.press typeKey
  simp only [if_neg hne]
  split_ifs <;> rfl

theorem press_enter (o : KeyObserver) (now : ℤ) (hline : o.line ≠ []) :
    o.press now ksEnter = ((o.emit now).1, [(o.emit now).2]) := by
  rw [KeyObserver.press, if_pos rfl, if_pos hline]

theorem press_enter_line (o : KeyObserver) (now : ℤ) : (o.press now ksEnter).1.line = [] := by
  by_cases hline : o.line = []
  · simp [KeyObserver.press, hline]
  · rw [press_enter o now hline]
    rfl

theorem keyOn_enter_line (h : keyDown x.2 = some ksEnter) (o : KeyObserver) : (keyOn o x).1.line = [] := by
  rw [keyOn_some h]
  exact press_enter_line _ _

theorem keyOn_ssh (o : KeyObserver) (x : SeenKey) : (keyOn o x).1.ssh = o.ssh := by
  have hidle : (o.idle x.1).1.ssh = o.ssh := by
    unfold KeyObserver.idle
    split
    · split_ifs <;> rfl
    · rfl
  have hpress : ∀ (o : KeyObserver) (keysym : ℤ), (o.press x.1 keysym).1.ssh = o.ssh := by
    intro o keysym
    unfold KeyObserver.press
    split_ifs <;> rfl
  cases hdown : keyDown x.2 with
  | none => rw [keyOn_none hdown]
  | some keysym =>
    rw [keyOn_some hdown]
    exact (hpress _ keysym).trans hidle

theorem steady_of_ssh (h : o.ssh = true) (seen : List SeenKey) : Steady o seen := by
  induction seen generalizing o with
  | nil => exact trivial
  | cons x seen ih => exact ⟨.inr (.inl h), ih ((keyOn_ssh o x).trans h)⟩

theorem keysAfter_ssh (o : KeyObserver) (seen : List SeenKey) : (keysAfter o seen).ssh = o.ssh := by
  induction seen generalizing o with
  | nil => rfl
  | cons x seen ih => exact (ih _).trans (keyOn_ssh o x)

/-! A line. -/

/-- While no Enter is typed and no line is given up, nothing is shown and the line grows as it is typed. -/
theorem within_line {seen : List SeenKey} (hne : ∀ x ∈ seen, keyDown x.2 ≠ some ksEnter) (o : KeyObserver) (hs : Steady o seen) :
    keyEvents o seen = [] ∧ (keysAfter o seen).maskNext = o.maskNext ∧ (keysAfter o seen).line = seen.foldl typeOn o.line := by
  induction seen generalizing o with
  | nil => exact ⟨rfl, rfl, rfl⟩
  | cons x seen ih =>
    have hx : keyOn o x = ({ (keyOn o x).1 with maskNext := o.maskNext, line := typeOn o.line x }, []) := by
      cases hdown : keyDown x.2 with
      | none => rw [keyOn_none hdown, typeOn, hdown]; rfl
      | some keysym =>
        have hkey : keysym ≠ ksEnter := fun h => hne x List.mem_cons_self (h ▸ hdown)
        rw [keyOn_inTime hdown hs.1, press_ne_enter hkey, typeOn, hdown]
        rfl
    obtain ⟨he, hm, hl⟩ := ih (fun y hy => hne y (List.mem_cons_of_mem _ hy)) _ hs.2
    simp only at he hm hl
    rw [hx] at he hm hl
    refine ⟨?_, ?_, ?_⟩
    · rw [keyEvents, outputs, hx]
      exact he
    · rw [keysAfter, outputs, hx]
      exact hm
    · rw [keysAfter, outputs, hx]
      exact hl

/-- The event shows four bullets and nothing of the line. -/
def Masks (e : KeyEvent) : Prop := e.masked = true ∧ e.text = maskText

theorem emit_masks (h : o.maskNext = true) (now : ℤ) : Masks (o.emit now).2 := ⟨h, if_pos h⟩

theorem flush_masks (h : o.maskNext = true) (now : ℤ) : ∀ e ∈ keyFlush now o, Masks e := by
  intro e he
  unfold keyFlush at he
  split_ifs at he
  · cases he
  · rw [List.mem_singleton.1 he]
    exact emit_masks h now

theorem enter_masks (hx : keyDown x.2 = some ksEnter) (ht : InTime o x) (h : o.maskNext = true) :
    ∀ e ∈ (keyOn o x).2, Masks e := by
  intro e he
  rw [keyOn_inTime hx ht] at he
  by_cases hline : o.line = []
  · simp [KeyObserver.press, hline] at he
  · rw [press_enter { o with lastKey := some x.1 } _ hline, List.mem_singleton] at he
    rw [he]
    exact emit_masks (o := { o with lastKey := some x.1 }) h _

theorem enter_prompt (hx : keyDown x.2 = some ksEnter) (ht : InTime o x) (h : o.maskNext = false)
    (hprompt : passwordPrompt o.line = true) : (keyOn o x).1.maskNext = true := by
  have hline : o.line ≠ [] := by
    intro hnil
    rw [hnil] at hprompt
    exact absurd hprompt (by decide)
  rw [keyOn_inTime hx ht, press_enter { o with lastKey := some x.1 } _ hline]
  simp only [KeyObserver.emit, h, Bool.false_eq_true, if_false]
  exact hprompt

theorem keysAfter_append (o : KeyObserver) (seen seen' : List SeenKey) :
    keysAfter o (seen ++ seen') = keysAfter (keysAfter o seen) seen' := by
  rw [keysAfter, outputs_append]
  rfl

theorem keysAfter_line (ho : o.line = []) {seen : List SeenKey}
    (h : ∀ x ∈ seen.getLast?, keyDown x.2 = some ksEnter) : (keysAfter o seen).line = [] := by
  rcases List.eq_nil_or_concat seen with rfl | ⟨seen, x, rfl⟩
  · exact ho
  · rw [List.concat_eq_append] at h ⊢
    rw [keysAfter_append]
    exact keyOn_enter_line (h x (by simp)) _

/-- After a line that asks for a password, where that line was itself shown in clear and, outside ssh, neither it nor what follows is
given up before its Enter, what is typed until the next Enter is only shown masked: by that Enter, or by the flush at the end. -/
theorem typed_after_prompt_masked (ssh : Bool) (start : ℤ) (hist line mid : List SeenKey) (enter : SeenKey)
    (hhist : ∀ x ∈ hist.getLast?, keyDown x.2 = some ksEnter) (hline : ∀ x ∈ line, keyDown x.2 ≠ some ksEnter)
    (hprompt : passwordPrompt (typedLine line) = true) (henter : keyDown enter.2 = some ksEnter)
    (hmid : ∀ x ∈ mid, keyDown x.2 ≠ some ksEnter)
    (hshown : (keysAfter (newKeyObserver ssh start) hist).maskNext = false)
    (hsteady : ssh = true ∨ Steady (keysAfter (newKeyObserver ssh start) hist) (line ++ enter :: mid)) :
    let o := keysAfter (newKeyObserver ssh start) (hist ++ line ++ [enter])
    keyEvents o mid = [] ∧ (∀ now, ∀ e ∈ keyFlush now (keysAfter o mid), Masks e) ∧
      ∀ last, keyDown last.2 = some ksEnter → ssh = true ∨ InTime (keysAfter o mid) last →
        (∀ e ∈ (keyOn (keysAfter o mid) last).2, Masks e) ∧ (keyOn (keysAfter o mid) last).1.line = [] := by
  intro o
  have hall : Steady (keysAfter (newKeyObserver ssh start) hist) (line ++ enter :: mid) :=
    hsteady.elim (fun hssh => steady_of_ssh ((keysAfter_ssh _ hist).trans hssh) _) id
  obtain ⟨hs₁, ht, hs₂⟩ := meets_append.1 hall
  rw [← outputs_fst] at ht hs₂
  obtain ⟨-, hm₁, hl₁⟩ := within_line hline _ hs₁
  rw [keysAfter_line (o := newKeyObserver ssh start) rfl hhist] at hl₁
  have ho : o = (keyOn (keysAfter (keysAfter (newKeyObserver ssh start) hist) line) enter).1 := by
    rw [← keysAfter_append]
    exact keysAfter_append _ (hist ++ line) [enter]
  have hmask : o.maskNext = true := by
    rw [ho]
    exact enter_prompt henter ht (hm₁.trans hshown) (hl₁ ▸ hprompt)
  obtain ⟨he, hm, -⟩ := within_line hmid o (ho ▸ hs₂)
  refine ⟨he, flush_masks (hm.trans hmask), ?_⟩
  intro last hlast htime
  have htlast : InTime (keysAfter o mid) last :=
    htime.elim (fun hssh => .inr (.inl (((keysAfter_ssh o mid).trans (keysAfter_ssh _ _)).trans hssh))) id
  exact ⟨enter_masks hlast htlast (hm.trans hmask), keyOn_enter_line hlast _⟩

/-- A key that goes down. -/
def keyAt (now keysym : ℤ) : SeenKey := (now, (ascii "key", [decimal keysym, ascii "1"]))

/-- The keys of a text typed at one time; a semicolon stands for Enter. -/
def keysOf (now : ℤ) (text : String) : List SeenKey := text.toList.map fun c => keyAt now (if c = ';' then ksEnter else c.toNat)

/-- A password typed over RDP one second after `su`, and its Enter a second later. -/
theorem typed_after_prompt_masked_rdp :
    keyOn (keysAfter (keysAfter (newKeyObserver false 0) (keysOf 0 "su;")) (keysOf 1000000000 "pw")) (keyAt 2000000000 ksEnter) =
        (⟨false, 0, [], some 2000000000, false⟩, [⟨2000, ascii "text", maskText, true⟩]) ∧
      ∀ e ∈ (keyOn (keysAfter (keysAfter (newKeyObserver false 0) (keysOf 0 "su;")) (keysOf 1000000000 "pw"))
        (keyAt 2000000000 ksEnter)).2, Masks e := by
  have h := typed_after_prompt_masked false 0 [] (keysOf 0 "su") (keysOf 1000000000 "pw") (keyAt 0 ksEnter)
    (by decide) (by decide) (by decide) (by decide) (by decide) rfl (.inr (by decide +kernel))
  exact ⟨by decide +kernel, (h.2.2 (keyAt 2000000000 ksEnter) (by decide) (.inr (by decide +kernel))).1⟩

/-- Over ssh a prompt typed where a password was expected is masked, and the line after it is shown; over RDP a pause in a
password shows the rest of it. -/
theorem prompt_then_clear :
    (keyEvents (newKeyObserver true 0) (keysOf 0 "su;su;pw;")).map (·.text) = [ascii "su", maskText, ascii "pw"] ∧
    (keyEvents (newKeyObserver false 0) (keysOf 0 "su;p" ++ keysOf 2000000000 "w;")).map (·.text) =
      [ascii "su", maskText, ascii "w"] := by
  decide +kernel

end Captivo.Guac
