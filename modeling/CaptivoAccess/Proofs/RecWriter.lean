import CaptivoAccess.Spec.RecWriter

/-! What a recording holds when every send succeeds: the session from its start up to the
write that reached the cap, in chunks without a gap. The invariant says what was sent and
what is buffered of the writes so far; one write keeps it, and `Close` sends the rest. -/

namespace Captivo.Capture

open Lib.Utf8 Captivo.Video

def Out.sent : Out → Option RecWriteRequest
  | .send req => some req
  | _ => none

/-- The chunks that were sent. -/
def sent (outs : List Out) : List RecWriteRequest := outs.filterMap Out.sent

/-- How often a recording was reported as cut short. -/
def truncations (key : Bytes) (outs : List Out) : ℕ := outs.count (.reportTruncated key)

/-- There is a cap, and the items reach it. -/
def Reached (capBytes : ℤ) (items : List Bytes) : Prop := 0 < capBytes ∧ capBytes ≤ items.flatten.length

instance (capBytes : ℤ) (items : List Bytes) : Decidable (Reached capBytes items) :=
  inferInstanceAs (Decidable (_ ∧ _))

/-- The first `k` items are the fewest that reach the cap; where none do, they are all. -/
structure Kept (capBytes : ℤ) (items : List Bytes) (k : ℕ) : Prop where
  le : k ≤ items.length
  first : ∀ j < k, ¬ Reached capBytes (items.take j)
  cut : k < items.length → Reached capBytes (items.take k)

theorem Kept.over {capBytes : ℤ} {items : List Bytes} {k : ℕ} (h : Kept capBytes items k) (hreached : Reached capBytes (items.take k))
    (inst : Bytes) : Kept capBytes (items ++ [inst]) k where
  le := h.le.trans (by simp)
  first j hj := by
    rw [List.take_append_of_le_length (hj.le.trans h.le)]
    exact h.first j hj
  cut _ := by
    rw [List.take_append_of_le_length h.le]
    exact hreached

theorem Kept.under {capBytes : ℤ} {items : List Bytes} (h : Kept capBytes items items.length) (hunder : ¬ Reached capBytes items)
    (inst : Bytes) : Kept capBytes (items ++ [inst]) (items ++ [inst]).length where
  le := le_rfl
  first j hj := by
    have hle : j ≤ items.length := Nat.le_of_lt_succ (by simpa using hj)
    rw [List.take_append_of_le_length hle]
    rcases hle.lt_or_eq with hlt | rfl
    · exact h.first j hlt
    · rwa [List.take_length]
  cut hlt := absurd hlt (lt_irrefl _)

/-- What has become of the items that were written so far. -/
structure Recorded (w₀ : RecWriter) (items : List Bytes) (k : ℕ) (w : RecWriter) (outs : List Out) (chunks : List Bytes) : Prop where
  kept : Kept w₀.capBytes items k
  same : w.tenantID = w₀.tenantID ∧ w.key = w₀.key ∧ w.format = w₀.format ∧ w.protocol = w₀.protocol ∧ w.capBytes = w₀.capBytes
  stopped : w.stopped = decide (k < items.length)
  total : w.total = (items.take k).flatten.length
  bytes : chunks.flatten ++ w.buf = (items.take k).flatten
  seq : w.seq = chunks.length
  sent : sent outs = chunks.mapIdx w₀.request
  truncated : truncations w₀.key outs = if k < items.length then 1 else 0

/-! One call. -/

theorem sent_append (a b : List Out) : sent (a ++ b) = sent a ++ sent b := List.filterMap_append

theorem truncations_append (key : Bytes) (a b : List Out) : truncations key (a ++ b) = truncations key a + truncations key b :=
  List.count_append

section Step

variable {w₀ w : RecWriter} {items : List Bytes} {k : ℕ} {outs : List Out} {chunks : List Bytes}

theorem Recorded.flush (h : Recorded w₀ items k w outs chunks) {f : Flush} (hf : f.err = none) :
    ∃ chunks', Recorded w₀ items k (w.flush f).1 (outs ++ (w.flush f).2) chunks' ∧ (w.flush f).1.buf = [] := by
  by_cases hbuf : w.buf = []
  · rw [RecWriter.flush, if_pos hbuf, List.append_nil]
    exact ⟨chunks, h, hbuf⟩
  · rw [RecWriter.flush, if_neg hbuf]
    obtain ⟨htenant, hkey, hformat, hprotocol, -⟩ := h.same
    refine ⟨chunks ++ [w.buf], ⟨h.kept, h.same, ?_, h.total, ?_, ?_, ?_, ?_⟩, rfl⟩
    · simp [h.stopped, hf]
    · simpa using h.bytes
    · simp [h.seq]
    · have hrequest : w.request w.seq w.buf = w₀.request chunks.length w.buf := by
        simp only [RecWriter.request, htenant, hkey, hformat, hprotocol, h.seq]
      rw [sent_append, h.sent, List.mapIdx_concat, hrequest]
      rfl
    · rw [truncations_append, h.truncated]
      simp [truncations]

theorem Recorded.ignore (h : Recorded w₀ items k w outs chunks) (hstopped : w.stopped = true) (inst : Bytes) :
    Recorded w₀ (items ++ [inst]) k w outs chunks := by
  have hcut : k < items.length := by simpa [h.stopped] using hstopped
  have hover : k < (items ++ [inst]).length := hcut.trans_le (by simp)
  refine ⟨h.kept.over (h.kept.cut hcut) inst, h.same, ?_, ?_, ?_, h.seq, h.sent, ?_⟩
  · rw [hstopped, decide_eq_true hover]
  · rw [List.take_append_of_le_length h.kept.le, h.total]
  · rw [List.take_append_of_le_length h.kept.le, h.bytes]
  · rw [h.truncated, if_pos hcut, if_pos hover]

theorem Recorded.stop (h : Recorded w₀ items items.length w outs chunks) (hreached : Reached w₀.capBytes items) (inst : Bytes) :
    Recorded w₀ (items ++ [inst]) items.length { w with stopped := true } (outs ++ [.reportTruncated w₀.key]) chunks := by
  have hover : items.length < (items ++ [inst]).length := by simp
  refine ⟨h.kept.over (by rwa [List.take_length]) inst, h.same, ?_, ?_, ?_, h.seq, ?_, ?_⟩
  · rw [decide_eq_true hover]
  · rw [List.take_append_of_le_length le_rfl]
    exact h.total
  · rw [List.take_append_of_le_length le_rfl]
    exact h.bytes
  · rw [sent_append, h.sent]
    exact List.append_nil _
  · rw [truncations_append, h.truncated, if_neg (lt_irrefl _), if_pos hover]
    simp [truncations]

theorem Recorded.take (h : Recorded w₀ items items.length w outs chunks) (hunder : ¬ Reached w₀.capBytes items) (inst : Bytes) :
    Recorded w₀ (items ++ [inst]) (items ++ [inst]).length
      { w with buf := w.buf ++ inst, total := w.total + inst.length } outs chunks := by
  refine ⟨h.kept.under hunder inst, h.same, ?_, ?_, ?_, h.seq, h.sent, ?_⟩
  · rw [h.stopped]
    simp
  · rw [h.total]
    simp
  · rw [← List.append_assoc, h.bytes, List.take_length, List.take_length]
    simp
  · rw [h.truncated]
    simp

theorem flush_stopped (w : RecWriter) (f : Flush) :
    { w with stopped := true }.flush f = ({ (w.flush f).1 with stopped := true }, (w.flush f).2) := by
  by_cases hbuf : w.buf = []
  · simp only [RecWriter.flush, hbuf, if_true]
  · simp only [RecWriter.flush, hbuf, if_false, Bool.true_or]
    rfl

theorem Recorded.write (h : Recorded w₀ items k w outs chunks) (inst : Bytes) (now : ℤ) {f : Flush} (hf : f.err = none) :
    ∃ k' chunks', Recorded w₀ (items ++ [inst]) k' (w.write inst now f).1 (outs ++ (w.write inst now f).2) chunks' := by
  rw [RecWriter.write]
  by_cases hstopped : w.stopped = true
  · rw [if_pos hstopped, List.append_nil]
    exact ⟨k, chunks, h.ignore hstopped inst⟩
  rw [if_neg hstopped]
  -- nothing was left out so far
  obtain rfl : k = items.length := by
    have hall : ¬ k < items.length := by simpa [h.stopped] using hstopped
    exact le_antisymm h.kept.le (Nat.not_lt.1 hall)
  have hcap : (0 < w.capBytes ∧ w.capBytes ≤ w.total) ↔ Reached w₀.capBytes items := by
    rw [h.same.2.2.2.2, h.total, List.take_length, Reached]
  by_cases hreached : Reached w₀.capBytes items
  · rw [if_pos (hcap.2 hreached), flush_stopped w f, h.same.2.1, ← List.append_assoc]
    obtain ⟨chunks', hflush, -⟩ := h.flush hf
    exact ⟨items.length, chunks', hflush.stop hreached inst⟩
  · rw [if_neg (hcap.not.2 hreached)]
    have htaken := h.take hreached inst
    dsimp only
    split_ifs
    · obtain ⟨chunks', hflush, -⟩ := htaken.flush hf
      exact ⟨_, chunks', hflush⟩
    · rw [List.append_nil]
      exact ⟨_, chunks, htaken⟩

theorem Recorded.writes (h : Recorded w₀ items k w outs chunks) {calls : List Write} (hcalls : ∀ c ∈ calls, c.flush.err = none) :
    ∃ k' chunks', Recorded w₀ (items ++ calls.map (·.inst)) k' (w.writes calls).1 (outs ++ (w.writes calls).2) chunks' := by
  induction calls generalizing items k w outs chunks with
  | nil =>
    rw [List.map_nil, List.append_nil, RecWriter.writes, List.append_nil]
    exact ⟨k, chunks, h⟩
  | cons c calls ih =>
    obtain ⟨k', chunks', hfirst⟩ := h.write c.inst c.now (hcalls c List.mem_cons_self)
    obtain ⟨k'', chunks'', hrest⟩ := ih hfirst fun d hd => hcalls d (List.mem_cons_of_mem c hd)
    rw [List.append_assoc, List.append_assoc] at hrest
    exact ⟨k'', chunks'', hrest⟩

end Step

/-! Whole sessions. -/

/-- A writer to which nothing was written yet. -/
def RecWriter.Fresh (w : RecWriter) : Prop := w.buf = [] ∧ w.seq = 0 ∧ w.total = 0 ∧ w.stopped = false

theorem Recorded.start {w : RecWriter} (h : w.Fresh) : Recorded w [] 0 w [] [] := by
  obtain ⟨hbuf, hseq, htotal, hstopped⟩ := h
  refine ⟨⟨le_rfl, fun j hj => absurd hj (Nat.not_lt_zero j), fun h => absurd h (lt_irrefl _)⟩, ⟨rfl, rfl, rfl, rfl, rfl⟩,
    hstopped, htotal, ?_, hseq, rfl, rfl⟩
  rw [hbuf]
  rfl

theorem session_recorded {w : RecWriter} (hfresh : w.Fresh) {calls : List Write} (hcalls : ∀ c ∈ calls, c.flush.err = none)
    {close : Flush} (hclose : close.err = none) :
    ∃ (k : ℕ) (chunks : List Bytes), Kept w.capBytes (calls.map (·.inst)) k ∧ sent (w.session calls close) = chunks.mapIdx w.request ∧
      chunks.flatten = ((calls.map (·.inst)).take k).flatten ∧
      truncations w.key (w.session calls close) = if k < calls.length then 1 else 0 := by
  obtain ⟨k, chunks, hwritten⟩ := (Recorded.start hfresh).writes hcalls
  rw [List.nil_append, List.nil_append] at hwritten
  obtain ⟨chunks', hclosed, hbuf⟩ := hwritten.flush hclose
  have hbytes := hclosed.bytes
  rw [hbuf, List.append_nil] at hbytes
  have htruncated := hclosed.truncated
  rw [List.length_map] at htruncated
  exact ⟨k, chunks', hwritten.kept, hclosed.sent, hbytes, htruncated⟩

theorem Kept.cut_iff {capBytes : ℤ} {items : List Bytes} {k : ℕ} (h : Kept capBytes items k) :
    k < items.length ↔ ∃ j < items.length, Reached capBytes (items.take j) := by
  refine ⟨fun hlt => ⟨k, hlt, h.cut hlt⟩, ?_⟩
  intro ⟨j, hj, hreached⟩
  exact (Nat.not_lt.1 fun hlt => h.first j hlt hreached).trans_lt hj

/-- Whatever is written, whenever and under whatever cap: each of the two writers sends chunks numbered from zero that together
are the first items that reach the cap, or all of them. It reports that it cut the recording short once if there was a write
after that, and else never. -/
theorem recording_is_kept (w : RecWriter)
    (hw : (∃ tenantID key protocol capBytes now, w = newRecWriter tenantID key protocol capBytes now) ∨
      ∃ tenantID key capBytes now, w = newKasmRecWriter tenantID key capBytes now)
    (calls : List Write) (close : Flush) (hcalls : ∀ c ∈ calls, c.flush.err = none) (hclose : close.err = none) :
    ∃ (k : ℕ) (chunks : List Bytes), Kept w.capBytes (calls.map (·.inst)) k ∧
      sent (w.session calls close) = chunks.mapIdx w.request ∧
      chunks.flatten = ((calls.map (·.inst)).take k).flatten ∧
      ((∃ j < calls.length, Reached w.capBytes ((calls.map (·.inst)).take j)) → truncations w.key (w.session calls close) = 1) ∧
      ((¬ ∃ j < calls.length, Reached w.capBytes ((calls.map (·.inst)).take j)) → truncations w.key (w.session calls close) = 0) := by
  have hfresh : w.Fresh := by
    rcases hw with ⟨_, _, _, _, _, rfl⟩ | ⟨_, _, _, _, rfl⟩
    · exact ⟨rfl, rfl, rfl, rfl⟩
    · exact ⟨rfl, rfl, rfl, rfl⟩
  obtain ⟨k, chunks, hkept, hsent, hbytes, htruncated⟩ := session_recorded hfresh hcalls hclose
  have hcut := hkept.cut_iff
  rw [List.length_map] at hcut
  rw [htruncated]
  exact ⟨k, chunks, hkept, hsent, hbytes, fun h => if_pos (hcut.2 h), fun h => if_neg (hcut.not.2 h)⟩

/-- A cap of three bytes that the second of three writes reaches, on a clock that goes back. -/
theorem recording_is_kept_three :
    ∃ (k : ℕ) (chunks : List Bytes), Kept 3 [[1, 2], [3, 4], [5]] k ∧ chunks.flatten = ([[1, 2], [3, 4], [5]].take k).flatten ∧
      truncations [9] ((newRecWriter [8] [9] [] 3 7).session
        [⟨[1, 2], 2000000007, ⟨3, none⟩⟩, ⟨[3, 4], 0, ⟨0, none⟩⟩, ⟨[5], 0, ⟨0, none⟩⟩] ⟨0, none⟩) = 1 := by
  obtain ⟨k, chunks, hkept, -, hbytes, hone, -⟩ := recording_is_kept (newRecWriter [8] [9] [] 3 7) (Or.inl ⟨_, _, _, _, _, rfl⟩)
    [⟨[1, 2], 2000000007, ⟨3, none⟩⟩, ⟨[3, 4], 0, ⟨0, none⟩⟩, ⟨[5], 0, ⟨0, none⟩⟩] ⟨0, none⟩ (by simp) rfl
  exact ⟨k, chunks, hkept, hbytes, hone ⟨2, by decide, by decide⟩⟩

end Captivo.Capture
