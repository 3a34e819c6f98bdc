import CaptivoAccess.Lib.Base64
import CaptivoAccess.Proofs.TransferAudit

/-! The byte count of an open file stream. What a blob adds is told from the length of
its text and the pads it ends in, and the text is not checked: a text of less than four
characters that ends in a pad takes bytes away. Without such texts the count only grows,
and a valid text adds what it decodes to. -/

namespace Captivo.Guac

open Lib.Utf8 Lib.Run Lib

/-! What a blob adds. -/

/-- A text that ends in a pad has a whole quantum. -/
def Padded (data : Bytes) : Prop := data.getLast? = some Base64.pad → 4 ≤ data.length

instance (data : Bytes) : Decidable (Padded data) := inferInstanceAs (Decidable (_ → _))

theorem b64DecodedLen_eq (data : Bytes) : b64DecodedLen data = ((data.length / 4 * 3 : ℕ) : ℤ) - Base64.padding data := by
  unfold b64DecodedLen Base64.padding Base64.pad
  split_ifs <;> rfl

theorem b64DecodedLen_nonneg_iff (data : Bytes) : 0 ≤ b64DecodedLen data ↔ Padded data := by
  have hle := Base64.padding_le data
  rw [b64DecodedLen_eq, Padded]
  by_cases hlast : data.getLast? = some Base64.pad
  · have hpos : 0 < Base64.padding data := by
      rw [Base64.padding, if_pos hlast]
      split_ifs <;> decide
    simp only [hlast, forall_const]
    omega
  · have hzero : Base64.padding data = 0 := if_neg hlast
    simp only [hlast, hzero, false_implies, iff_true]
    omega

theorem b64DecodedLen_le (data : Bytes) : b64DecodedLen data ≤ data.length := by
  rw [b64DecodedLen_eq]
  omega

theorem b64DecodedLen_valid {data bytes : Bytes} (h : Base64.decode data = some bytes) : b64DecodedLen data = bytes.length := by
  have hlen := (Base64.decode_length h).2
  rw [b64DecodedLen_eq]
  omega

/-! The stream under an index. -/

theorem dlookup_kreplace {α : Type} {β : α → Type} [DecidableEq α] (k : α) (v : β k) (l : List (Sigma β)) :
    (l.kreplace k v).dlookup k = (l.dlookup k).map fun _ => v := by
  induction l with
  | nil => rfl
  | cons e l ih =>
    obtain ⟨k₀, v₀⟩ := e
    by_cases hk : k = k₀
    · subst hk
      rw [List.kreplace, List.lookmap_cons_some _ _ (b := ⟨k, v⟩) (by simp), List.dlookup_cons_eq, List.dlookup_cons_eq]
      rfl
    · rw [List.kreplace, List.lookmap_cons_none _ _ (by simp [hk]), List.dlookup_cons_ne _ _ hk, List.dlookup_cons_ne _ _ hk]
      exact ih

theorem dlookup_kreplace_ne {α : Type} {β : α → Type} [DecidableEq α] {k k' : α} (hne : k' ≠ k) (v : β k) (l : List (Sigma β)) :
    (l.kreplace k v).dlookup k' = l.dlookup k' := by
  induction l with
  | nil => rfl
  | cons e l ih =>
    obtain ⟨k₀, v₀⟩ := e
    by_cases hk : k = k₀
    · subst hk
      rw [List.kreplace, List.lookmap_cons_some _ _ (b := ⟨k, v⟩) (by simp), List.dlookup_cons_ne _ _ hne, List.dlookup_cons_ne _ _ hne]
    · rw [List.kreplace, List.lookmap_cons_none _ _ (by simp [hk])]
      by_cases hk' : k' = k₀
      · subst hk'
        rw [List.dlookup_cons_eq, List.dlookup_cons_eq]
      · rw [List.dlookup_cons_ne _ _ hk', List.dlookup_cons_ne _ _ hk']
        exact ih

namespace Streams

/-- A stream with so many bytes more, in 64 bits. -/
def grown (n : ℤ) (st : FtStream) : FtStream := { st with bytes := (st.bytes + n).bmod (2 ^ 64) }

theorem get_addBytes (s : Streams) (k : FtKey) (n : ℤ) : (s.addBytes k n).get k = (s.get k).map (grown n) := by
  unfold addBytes
  split
  · rename_i hnone
    rw [hnone]
    rfl
  · rename_i st hst
    have hlook : s.live.entries.dlookup k = some st := hst
    rw [hst]
    refine (dlookup_kreplace k _ s.live.entries).trans ?_
    rw [hlook]
    rfl

theorem get_addBytes_ne (s : Streams) {k k' : FtKey} (hne : k' ≠ k) (n : ℤ) : (s.addBytes k n).get k' = s.get k' := by
  unfold addBytes
  split
  · rfl
  · exact dlookup_kreplace_ne hne _ s.live.entries

theorem get_openStream {s : Streams} (hlt : s.live.entries.length < maxOpenStreams) (k : FtKey) (filename mimetype : Bytes) :
    (s.openStream k.dir k.idx filename mimetype).get k = some ⟨filename, mimetype, 0⟩ := by
  rw [openStream, dif_neg (not_le.mpr hlt)]
  exact AList.lookup_insert _

theorem get_openStream_ne (s : Streams) {k k' : FtKey} (hne : k' ≠ k) (filename mimetype : Bytes) :
    (s.openStream k.dir k.idx filename mimetype).get k' = s.get k' := by
  unfold openStream
  split_ifs with hfull
  · rfl
  · exact AList.lookup_insert_ne hne

theorem get_delete (s : Streams) (k : FtKey) : (s.delete k).get k = none := AList.lookup_erase k s.live

theorem get_delete_ne (s : Streams) {k k' : FtKey} (hne : k' ≠ k) : (s.delete k).get k' = s.get k' := AList.lookup_erase_ne hne

end Streams

/-! One instruction. -/

/-- The blobs of what was seen. -/
def blobs (seen : List (ℤ × XferDir × Instruction)) : List (FtKey × Bytes) := seen.filterMap fun x => blobOf x.2.1 x.2.2

/-- How long the texts of the blobs are together. -/
def load (seen : List (ℤ × XferDir × Instruction)) : ℕ := ((blobs seen).map fun b => b.2.length).sum

theorem blobs_append (seen seen' : List (ℤ × XferDir × Instruction)) : blobs (seen ++ seen') = blobs seen ++ blobs seen' :=
  List.filterMap_append

theorem load_append (seen seen' : List (ℤ × XferDir × Instruction)) : load (seen ++ seen') = load seen + load seen' := by
  rw [load, blobs_append, List.map_append, List.sum_append, load, load]

theorem blobs_singleton {x : ℤ × XferDir × Instruction} {b : FtKey × Bytes} (h : blobOf x.2.1 x.2.2 = some b) : blobs [x] = [b] := by
  simp [blobs, h]

section Step

variable {o : FtSession} {s : Streams} {x : ℤ × XferDir × Instruction} {k : FtKey}

theorem get_actOn (o : FtSession) (s : Streams) (x : ℤ × XferDir × Instruction) (k : FtKey) :
    (actOn o s x).1.get k = s.get k ∨
      (∃ data, blobOf x.2.1 x.2.2 = some (k, data) ∧ (actOn o s x).1.get k = (s.get k).map (Streams.grown (b64DecodedLen data))) ∨
      (fileOp x.2.1 x.2.2 = .ends k ∧ (actOn o s x).1.get k = none) ∨
      ∃ filename mimetype, fileOp x.2.1 x.2.2 = .opens k filename ∧ s.live.entries.length < maxOpenStreams ∧
        (actOn o s x).1.get k = some ⟨filename, mimetype, 0⟩ := by
  obtain ⟨now, dir, i⟩ := x
  simp only [actOn]
  cases hop : fileOp dir i with
  | opens k' filename =>
    obtain ⟨mimetype, hact⟩ := ftAct_opens o now s hop
    rw [hact]
    by_cases hk : k = k'
    · subst hk
      by_cases hfull : maxOpenStreams ≤ s.live.entries.length
      · exact .inl (by rw [Streams.openStream_full hfull])
      · exact .inr (.inr (.inr ⟨filename, mimetype, rfl, not_le.1 hfull, Streams.get_openStream (not_le.1 hfull) k filename mimetype⟩))
    · exact .inl (s.get_openStream_ne hk filename mimetype)
  | ends k' =>
    rw [(ftAct_ends o now s hop).2]
    by_cases hk : k = k'
    · subst hk
      refine .inr (.inr (.inl ⟨rfl, ?_⟩))
      split
      · exact s.get_delete k
      · rename_i hnone
        exact hnone
    · refine .inl ?_
      split
      · exact s.get_delete_ne hk
      · rfl
  | other =>
    rcases ftAct_rest o now s hop with ⟨k', data, hblob, hact⟩ | ⟨-, hact⟩
    · rw [hact]
      by_cases hk : k = k'
      · subst hk
        exact .inr (.inl ⟨data, hblob, s.get_addBytes k _⟩)
      · exact .inl (s.get_addBytes_ne hk _)
    · rw [hact]
      exact .inl rfl

theorem grown_bytes {st : FtStream} {data : Bytes} {bound : ℤ} (h0 : 0 ≤ st.bytes) (hle : st.bytes ≤ bound) (hp : Padded data)
    (hfit : bound + data.length < 2 ^ 63) :
    st.bytes ≤ (Streams.grown (b64DecodedLen data) st).bytes ∧ (Streams.grown (b64DecodedLen data) st).bytes ≤ bound + data.length := by
  have hadd := (b64DecodedLen_nonneg_iff data).2 hp
  have hmost := b64DecodedLen_le data
  have hexact : (st.bytes + b64DecodedLen data).bmod (2 ^ 64) = st.bytes + b64DecodedLen data :=
    Int.bmod_eq_of_le (by omega) (by omega)
  simp only [Streams.grown, hexact]
  omega

/-- Every stream has a count that is not negative and at most `bound`. -/
def Counts (bound : ℤ) (s : Streams) : Prop := ∀ k st, s.get k = some st → 0 ≤ st.bytes ∧ st.bytes ≤ bound

theorem Counts.step {bound : ℤ} (h : Counts bound s) (h0 : 0 ≤ bound) (hp : ∀ b ∈ blobs [x], Padded b.2)
    (hfit : bound + load [x] < 2 ^ 63) : Counts (bound + load [x]) (actOn o s x).1 := by
  intro k st' hget
  rcases get_actOn o s x k with hsame | ⟨data, hblob, hgrown⟩ | ⟨-, hnone⟩ | ⟨filename, mimetype, -, -, hnew⟩
  · have hst := h k st' (hsame ▸ hget)
    omega
  · rw [hget] at hgrown
    obtain ⟨st, hst, rfl⟩ := Option.map_eq_some_iff.1 hgrown.symm
    have hone := blobs_singleton hblob
    have hload : load [x] = data.length := by simp [load, hone]
    have hbytes := grown_bytes (h k st hst).1 (h k st hst).2 (hp (k, data) (by simp [hone])) (hload ▸ hfit)
    have hst0 := (h k st hst).1
    rw [hload]
    exact ⟨hst0.trans hbytes.1, hbytes.2⟩
  · rw [hget] at hnone
    cases hnone
  · rw [hget] at hnew
    cases hnew
    exact ⟨le_rfl, by simpa using by omega⟩

/-- The stream under `k` is the same one after the instruction: it is neither ended nor is another one opened in its place. -/
def Keeps (k : FtKey) (s : Streams) (x : ℤ × XferDir × Instruction) : Prop :=
  fileOp x.2.1 x.2.2 ≠ .ends k ∧ (s.live.entries.length < maxOpenStreams → ∀ filename, fileOp x.2.1 x.2.2 ≠ .opens k filename)

theorem Keeps.step {bound : ℤ} {st : FtStream} (hkeep : Keeps k s x) (h : Counts bound s) (hst : s.get k = some st)
    (hp : ∀ b ∈ blobs [x], Padded b.2) (hfit : bound + load [x] < 2 ^ 63) :
    ∃ st', (actOn o s x).1.get k = some st' ∧ st.bytes ≤ st'.bytes := by
  rcases get_actOn o s x k with hsame | ⟨data, hblob, hgrown⟩ | ⟨hends, -⟩ | ⟨filename, mimetype, hopens, hlt, -⟩
  · exact ⟨st, hsame.trans hst, le_rfl⟩
  · have hone := blobs_singleton hblob
    have hload : load [x] = data.length := by simp [load, hone]
    refine ⟨_, by rw [hgrown, hst]; rfl, ?_⟩
    exact (grown_bytes (h k st hst).1 (h k st hst).2 (hp (k, data) (by simp [hone])) (hload ▸ hfit)).1
  · exact absurd hends hkeep.1
  · exact absurd hopens (hkeep.2 hlt filename)

end Step

/-! A whole session. -/

/-- The streams after what was seen. -/
def after (o : FtSession) (s : Streams) (seen : List (ℤ × XferDir × Instruction)) : Streams := (outputs (actOn o) s seen).1

theorem Counts.after {o : FtSession} {s : Streams} {seen : List (ℤ × XferDir × Instruction)} {bound : ℤ} (h : Counts bound s)
    (h0 : 0 ≤ bound) (hp : ∀ b ∈ blobs seen, Padded b.2) (hfit : bound + load seen < 2 ^ 63) :
    Counts (bound + load seen) (after o s seen) := by
  induction seen generalizing s bound with
  | nil => simpa [load, blobs, Guac.after, outputs] using h
  | cons x seen ih =>
    have hload : load (x :: seen) = load [x] + load seen := load_append [x] seen
    have hblobs : blobs (x :: seen) = blobs [x] ++ blobs seen := blobs_append [x] seen
    rw [hload] at hfit ⊢
    rw [hblobs] at hp
    have hone : Counts (bound + load [x]) (actOn o s x).1 :=
      h.step h0 (fun b hb => hp b (List.mem_append_left _ hb)) (by push_cast at hfit; omega)
    have hrest := ih hone (by omega) (fun b hb => hp b (List.mem_append_right _ hb)) (by push_cast at hfit; omega)
    push_cast
    rw [← add_assoc]
    exact hrest

/-- The stream under `k` is the same one throughout. -/
def Stays (o : FtSession) (k : FtKey) : Streams → List (ℤ × XferDir × Instruction) → Prop :=
  Meets (fun s x => (actOn o s x).1) (Keeps k)

theorem Stays.grows {o : FtSession} {k : FtKey} {s : Streams} {seen : List (ℤ × XferDir × Instruction)} {bound : ℤ} {st : FtStream}
    (hstays : Stays o k s seen) (h : Counts bound s) (h0 : 0 ≤ bound) (hst : s.get k = some st)
    (hp : ∀ b ∈ blobs seen, Padded b.2) (hfit : bound + load seen < 2 ^ 63) :
    ∃ st', (after o s seen).get k = some st' ∧ st.bytes ≤ st'.bytes := by
  induction seen generalizing s bound st with
  | nil => exact ⟨st, hst, le_rfl⟩
  | cons x seen ih =>
    have hload : load (x :: seen) = load [x] + load seen := load_append [x] seen
    have hblobs : blobs (x :: seen) = blobs [x] ++ blobs seen := blobs_append [x] seen
    rw [hload] at hfit
    push_cast at hfit
    rw [hblobs] at hp
    have hhead : ∀ b ∈ blobs [x], Padded b.2 := fun b hb => hp b (List.mem_append_left _ hb)
    obtain ⟨st₁, hst₁, hle₁⟩ := Keeps.step (o := o) hstays.1 h hst hhead (by omega)
    have hone : Counts (bound + load [x]) (actOn o s x).1 := h.step h0 hhead (by omega)
    obtain ⟨st', hst', hle⟩ := ih hstays.2 hone (by omega) hst₁ (fun b hb => hp b (List.mem_append_right _ hb)) (by omega)
    exact ⟨st', hst', hle₁.trans hle⟩

/-- Where no blob is a text of less than four characters that ends in a pad, and the texts of all blobs are together shorter than
2^63, the count of a stream is never negative and does not decrease as long as the stream is open. A blob that is valid base64 adds
the length of what it decodes to. -/
theorem stream_bytes_grow (o : FtSession) (pre mid : List FtCall) (k : FtKey) {s s' : Streams} {out out' : List AuditEvent}
    (hpre : ftCalls o .empty pre = some (s, out)) (hmid : ftCalls o s mid = some (s', out'))
    (hstays : Stays o k s (seenIn mid)) {st : FtStream} (hst : s.get k = some st)
    (hpadded : ∀ b ∈ blobs (seenIn (pre ++ mid)), Padded b.2) (hfit : load (seenIn (pre ++ mid)) < 2 ^ 63) :
    (0 ≤ st.bytes ∧ ∃ st', s'.get k = some st' ∧ st.bytes ≤ st'.bytes) ∧
      ∀ (now : ℤ) (data bytes : Bytes) (rest : List Bytes), Base64.decode data = some bytes →
        (ftAct o now k.dir s (ascii "blob", k.idx :: data :: rest)).1.get k =
          some { st with bytes := (st.bytes + bytes.length).bmod (2 ^ 64) } := by
  have hseen : seenIn (pre ++ mid) = seenIn pre ++ seenIn mid := List.flatMap_append
  rw [hseen, blobs_append] at hpadded
  rw [hseen, load_append] at hfit
  obtain rfl : after o .empty (seenIn pre) = s := congrArg Prod.fst (ftCalls_eq hpre)
  obtain rfl : after o (after o .empty (seenIn pre)) (seenIn mid) = s' := congrArg Prod.fst (ftCalls_eq hmid)
  have hempty : Counts 0 Streams.empty := fun k st h => by cases h
  have hcounts : Counts (0 + load (seenIn pre)) (after o .empty (seenIn pre)) :=
    hempty.after le_rfl (fun b hb => hpadded b (List.mem_append_left _ hb)) (by omega)
  refine ⟨⟨(hcounts k st hst).1, ?_⟩, ?_⟩
  · exact hstays.grows hcounts (by omega) hst (fun b hb => hpadded b (List.mem_append_right _ hb)) (by omega)
  · intro now data bytes rest hdecode
    have hact : ftAct o now k.dir (after o .empty (seenIn pre)) (ascii "blob", k.idx :: data :: rest) =
        ((after o .empty (seenIn pre)).addBytes k (b64DecodedLen data), []) := rfl
    rw [hact, b64DecodedLen_valid hdecode, Streams.get_addBytes, hst]
    rfl

/-- An upload opened in one message, with a blob of three bytes in the next. -/
theorem stream_bytes_grow_upload :
    ∃ s s' out out' st, ftCalls ⟨[], [], [], [], []⟩ .empty [⟨0, .upload, ascii "4.file,1.0,1.t,1.x;"⟩] = some (s, out) ∧
      ftCalls ⟨[], [], [], [], []⟩ s [⟨0, .upload, ascii "4.blob,1.0,4.TWFu;"⟩] = some (s', out') ∧
      s.get ⟨.upload, ascii "0"⟩ = some st ∧ 0 ≤ st.bytes ∧
      (∃ st', s'.get ⟨.upload, ascii "0"⟩ = some st' ∧ st.bytes ≤ st'.bytes) ∧
      Base64.decode (ascii "TWFu") = some (ascii "Man") := by
  have hpre : (ftCalls ⟨[], [], [], [], []⟩ .empty [⟨0, .upload, ascii "4.file,1.0,1.t,1.x;"⟩]).isSome := by decide +kernel
  have hmid : (ftCalls ⟨[], [], [], [], []⟩ ((ftCalls ⟨[], [], [], [], []⟩ .empty
      [⟨0, .upload, ascii "4.file,1.0,1.t,1.x;"⟩]).get hpre).1 [⟨0, .upload, ascii "4.blob,1.0,4.TWFu;"⟩]).isSome := by
    decide +kernel +revert
  have hst : (((ftCalls ⟨[], [], [], [], []⟩ .empty
      [⟨0, .upload, ascii "4.file,1.0,1.t,1.x;"⟩]).get hpre).1.get ⟨.upload, ascii "0"⟩).isSome := by decide +kernel +revert
  have hseen : seenIn [⟨0, .upload, ascii "4.blob,1.0,4.TWFu;"⟩] = [(0, .upload, (ascii "blob", [ascii "0", ascii "TWFu"]))] := by
    decide +kernel
  have hother : fileOp .upload (ascii "blob", [ascii "0", ascii "TWFu"]) = .other := by decide
  have hgrow := stream_bytes_grow _ _ _ ⟨.upload, ascii "0"⟩ (Option.some_get hpre).symm (Option.some_get hmid).symm
    (by
      rw [hseen]
      exact ⟨⟨hother ▸ nofun, fun _ _ => hother ▸ nofun⟩, trivial⟩)
    (Option.some_get hst).symm (by decide +kernel) (by decide +kernel)
  exact ⟨_, _, _, _, _, (Option.some_get hpre).symm, (Option.some_get hmid).symm, (Option.some_get hst).symm, hgrow.1.1, hgrow.1.2,
    by decide⟩

/-- A blob that is a pad alone takes a byte away from a stream that has none. -/
theorem pad_alone_takes_a_byte :
    (ftCalls ⟨[], [], [], [], []⟩ .empty [⟨0, .upload, ascii "4.file,1.0,1.t,1.x;"⟩]).map
        (fun se => (se.1.get ⟨.upload, ascii "0"⟩).map FtStream.bytes) = some (some 0) ∧
    (ftCalls ⟨[], [], [], [], []⟩ .empty [⟨0, .upload, ascii "4.file,1.0,1.t,1.x;"⟩, ⟨0, .upload, ascii "4.blob,1.0,1.=;"⟩]).map
        (fun se => (se.1.get ⟨.upload, ascii "0"⟩).map FtStream.bytes) = some (some (-1)) := by
  decide +kernel

end Captivo.Guac
