import CaptivoAccess.Lib.Run
import CaptivoAccess.Sanity.GuacProto
import CaptivoAccess.Spec.GuacObserve

/-! Message boundaries and what the observers see. An observer acts on the
instructions it can read in one message and forgets the rest of it, so it sees the
stream guacd sees as long as every message but the last ends with an instruction. -/

namespace Captivo.Guac

open Lib.Utf8 Lib.Parse Lib.Run

/-- The audit events of a stream of messages with those of the teardown; `none` if the process went down. -/
def ftAudit (o : FtSession) (now : ℤ) (dir : XferDir) (s : Streams) (messages : List Bytes) :
    Option (Multiset AuditEvent) :=
  (observeAll (ftObserve o now dir) s messages).map fun se => ↑se.2 + ftFlush o now se.1

/-- The keystroke texts of a stream of messages, with the line left at the teardown. -/
def keyTexts (now : ℤ) (o : KeyObserver) (messages : List Bytes) : Option (List Bytes) :=
  (observeAll (keyObserve now) o messages).map fun se => (se.2 ++ keyFlush now se.1).map (·.text)

section Observer

variable {σ ε : Type} (act : σ → Instruction → σ × List ε)

/-- An observer of one message. -/
def observeMessage (s : σ) (raw : Bytes) : Observed σ ε := observeLoop act (raw.length + 1) s raw

/-- An observer runs its action over the instructions it can read, and goes down if the parser
panics on what is left of them. -/
theorem observeLoop_eq {k : ℕ} (s : σ) {bs : Bytes} (hk : bs.length < k) :
    (observeLoop act k s bs).state = (outputs act s (instruction.all bs).1).1 ∧
    (observeLoop act k s bs).events = (outputs act s (instruction.all bs).1).2 ∧
    ((observeLoop act k s bs).crashed = true ↔ (parseInstruction (instruction.all bs).2).2 = .error .panic) := by
  induction k generalizing s bs with
  | zero => omega
  | succ k ih =>
    rcases hp : parseInstruction bs with ⟨requests, e | ⟨i, r⟩⟩
    · have hnone : instruction.read bs = none := by simp [instruction, hp, Except.toOption]
      rw [instruction.all_of_none hnone]
      simp [observeLoop, hp, outputs, Observed.crashed]
    · have hsome : instruction.read bs = some (i, r) := instruction_read.mpr (by rw [hp])
      have hlt := instruction.shortens hsome
      obtain ⟨h1, h2, h3⟩ := @ih (act s i).1 r (by omega)
      rw [instruction.all_of_some hsome]
      simp only [observeLoop, hp, outputs, h1, h2, true_and, ← h3]
      simp [Observed.crashed]

theorem observeMessage_whole (s : σ) {c : Bytes} (hc : instruction.Whole c) :
    (observeMessage act s c).crashed = false := by
  have h := (observeLoop_eq act s (Nat.lt_succ_self c.length)).2.2
  rw [hc] at h
  rw [← Bool.not_eq_true]
  intro hcr
  have hp := h.mp hcr
  revert hp
  decide

theorem observeMessage_append (s : σ) {c : Bytes} (hc : instruction.Whole c) (d : Bytes) :
    (observeMessage act s (c ++ d)).state = (observeMessage act (observeMessage act s c).state d).state ∧
    (observeMessage act s (c ++ d)).events =
      (observeMessage act s c).events ++ (observeMessage act (observeMessage act s c).state d).events ∧
    (observeMessage act s (c ++ d)).crashed = (observeMessage act (observeMessage act s c).state d).crashed := by
  obtain ⟨w1, w2, w3⟩ := observeLoop_eq act s (Nat.lt_succ_self (c ++ d).length)
  obtain ⟨c1, c2, -⟩ := observeLoop_eq act s (Nat.lt_succ_self c.length)
  obtain ⟨d1, d2, d3⟩ := observeLoop_eq act (observeMessage act s c).state (Nat.lt_succ_self d.length)
  rw [instruction.all_append instruction_stable hc, outputs_append] at w1 w2
  rw [instruction.all_append instruction_stable hc] at w3
  refine ⟨?_, ?_, ?_⟩
  · rw [observeMessage, w1, observeMessage, d1, observeMessage, c1]
  · rw [observeMessage, w2, ← c1, ← c2]
    exact congrArg _ d2.symm
  · rw [Bool.eq_iff_iff]
    exact w3.trans d3.symm

theorem observeAll_singleton (observe : σ → Bytes → Observed σ ε) (s : σ) (c : Bytes) :
    observeAll observe s [c] =
      if (observe s c).crashed then none else some ((observe s c).state, (observe s c).events) := by
  simp [observeAll]

theorem observeAll_cons_whole (s : σ) {c : Bytes} (hc : instruction.Whole c) (d : Bytes) :
    observeAll (observeMessage act) s [c, d] = observeAll (observeMessage act) s [c ++ d] := by
  obtain ⟨h1, h2, h3⟩ := observeMessage_append act s hc d
  rw [observeAll, observeMessage_whole act s hc, observeAll_singleton, observeAll_singleton, h1, h2, h3]
  by_cases hcr : (observeMessage act (observeMessage act s c).state d).crashed = true
  · simp [hcr]
  · simp [hcr]

/-- Messages that end with an instruction, the last one apart, are observed as the one message they make up. -/
theorem observeAll_flatten (s : σ) (messages : List Bytes) (h : ∀ c ∈ messages.dropLast, instruction.Whole c) :
    observeAll (observeMessage act) s messages = observeAll (observeMessage act) s [messages.flatten] := by
  induction messages generalizing s with
  | nil =>
    have hw : instruction.Whole [] := by simp [Reader.Whole]
    rw [List.flatten_nil, observeAll_singleton, observeMessage_whole act s hw]
    rfl
  | cons c cs ih =>
    by_cases hcs : cs = []
    · simp [hcs]
    · rw [List.dropLast_cons_of_ne_nil hcs] at h
      have hc : instruction.Whole c := h c List.mem_cons_self
      rw [List.flatten_cons, ← observeAll_cons_whole act s hc, observeAll, observeAll,
        ih _ fun x hx => h x (List.mem_cons_of_mem _ hx)]

end Observer

/-- From any state of the observers, messages that end with an instruction, the last one
apart, leave the same audit events and the same keystroke texts as the stream they make up. -/
theorem observed_as_one_message (o : FtSession) (now : ℤ) (dir : XferDir) (s : Streams) (keys : KeyObserver)
    (messages : List Bytes) (h : ∀ c ∈ messages.dropLast, instruction.Whole c) :
    ftAudit o now dir s messages = ftAudit o now dir s [messages.flatten] ∧
    keyTexts now keys messages = keyTexts now keys [messages.flatten] := by
  have hft : observeAll (ftObserve o now dir) s messages = observeAll (ftObserve o now dir) s [messages.flatten] :=
    observeAll_flatten (ftAct o now dir) s messages h
  have hkey : observeAll (keyObserve now) keys messages = observeAll (keyObserve now) keys [messages.flatten] :=
    observeAll_flatten (keyAct now) keys messages h
  rw [ftAudit, hft, keyTexts, hkey]
  exact ⟨rfl, rfl⟩

/-- A key press in one message and an upload cut in two behind its first instruction. -/
theorem observed_as_one_message_upload :
    (∀ c ∈ [ascii "3.key,2.97,1.1;3.put,1.0,1.1,1.t,2./x;", ascii "3.end,1.1;"].dropLast, instruction.Whole c) ∧
    ftAudit ⟨[], [], [], [], []⟩ 0 .upload .empty
        [ascii "3.key,2.97,1.1;3.put,1.0,1.1,1.t,2./x;", ascii "3.end,1.1;"] =
      ftAudit ⟨[], [], [], [], []⟩ 0 .upload .empty
        [[ascii "3.key,2.97,1.1;3.put,1.0,1.1,1.t,2./x;", ascii "3.end,1.1;"].flatten] ∧
    keyTexts 0 ⟨true, 0, [], none, false⟩
        [ascii "3.key,2.97,1.1;3.put,1.0,1.1,1.t,2./x;", ascii "3.end,1.1;"] =
      keyTexts 0 ⟨true, 0, [], none, false⟩
        [[ascii "3.key,2.97,1.1;3.put,1.0,1.1,1.t,2./x;", ascii "3.end,1.1;"].flatten] := by
  have h : ∀ c ∈ [ascii "3.key,2.97,1.1;3.put,1.0,1.1,1.t,2./x;", ascii "3.end,1.1;"].dropLast,
      instruction.Whole c := by decide +kernel
  exact ⟨h, observed_as_one_message _ _ _ _ _ _ h⟩

/-- Cut inside the `key` and inside the `put`, the same stream shows neither the key press nor the upload. -/
theorem cut_hides_upload_and_key :
    ftAudit ⟨[], [], [], [], []⟩ 0 .upload .empty
        [ascii "3.key,2.97,", ascii "1.1;3.put,1.0,", ascii "1.1,1.t,2./x;3.end,1.1;"] ≠
      ftAudit ⟨[], [], [], [], []⟩ 0 .upload .empty
        [[ascii "3.key,2.97,", ascii "1.1;3.put,1.0,", ascii "1.1,1.t,2./x;3.end,1.1;"].flatten] ∧
    keyTexts 0 ⟨true, 0, [], none, false⟩
        [ascii "3.key,2.97,", ascii "1.1;3.put,1.0,", ascii "1.1,1.t,2./x;3.end,1.1;"] ≠
      keyTexts 0 ⟨true, 0, [], none, false⟩
        [[ascii "3.key,2.97,", ascii "1.1;3.put,1.0,", ascii "1.1,1.t,2./x;3.end,1.1;"].flatten] := by
  decide +kernel

end Captivo.Guac
