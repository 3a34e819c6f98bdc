import CaptivoAccess.Spec.MobileSession

/-! A one-time code of the app under any interleaving of calls. Every token that was ever
generated has one use, and a row is at any time as the use of its hash says. What the calls
answer follows from it, given that no two of the tokens hash alike. -/

namespace Captivo.Mobile

open Lib.Threads
open Captivo.RecFetch (Text)

/-- The token that was generated at that place is a code. -/
def World.IsCode (w : World) (k id : ℕ) (challenge : Text) (expiresAt : ℕ) : Prop :=
  w.made[k]? = some (.code id challenge expiresAt)

/-- What the row of a token is like. -/
def Use.Fits : Use → Session → Prop
  | .code id challenge expiresAt, s => s.id = id ∧ s.mobile = true ∧ s.mobileChallenge = some challenge ∧ s.expiresAt = expiresAt
  | .app id, s => s.id = id ∧ s.mobile = true ∧ s.mobileChallenge = none
  | .console id, s => s.id = id ∧ s.mobile = false ∧ s.mobileChallenge = none

/-! Time. -/

structure World.Later (w w' : World) : Prop where
  made : w.made <+: w'.made
  now : w.now ≤ w'.now

theorem World.Later.refl (w : World) : w.Later w := ⟨List.prefix_refl _, le_rfl⟩

theorem World.Later.trans {a b c : World} (h : a.Later b) (h' : b.Later c) : a.Later c :=
  ⟨h.made.trans h'.made, h.now.trans h'.now⟩

theorem World.Later.use {w w' : World} (h : w.Later w') {k : ℕ} {use : Use} (hk : w.made[k]? = some use) :
    w'.made[k]? = some use := by
  obtain ⟨hlt, -⟩ := List.getElem?_eq_some_iff.1 hk
  obtain ⟨new, hnew⟩ := h.made
  rw [← hnew, List.getElem?_append_left hlt, hk]

section

variable (sha256 s256 : Text → Text) (generate : ℕ → Text)

/-- What a statement leaves of the rows: an id is that of a row from before or new, and so is a hash. -/
structure Follows (w w' : World) : Prop where
  later : w.Later w'
  nextId : w.nextId ≤ w'.nextId
  ids : ∀ s' ∈ w'.sessions, (∃ s ∈ w.sessions, s'.id = s.id) ∨ w.nextId ≤ s'.id
  hashes : ∀ s' ∈ w'.sessions,
    (∃ s ∈ w.sessions, s'.tokenHash = s.tokenHash) ∨ ∃ k, w.made.length ≤ k ∧ s'.tokenHash = sha256 (generate k)

def RowOk (w : World) (s : Session) : Prop :=
  s.id < w.nextId ∧ ∃ k use, w.made[k]? = some use ∧ s.tokenHash = sha256 (generate k) ∧ use.Fits s

/-- A call that had a token was for a code with that challenge, in time, and the code is no longer there. -/
def Redeemed (w : World) (code : Text) (verifier : Option Text) (token : Text) (readAt : ℕ) : Prop :=
  ∃ k id challenge expiresAt, w.IsCode k id challenge expiresAt ∧ sha256 code = sha256 (generate k) ∧
    pkceMatches s256 verifier challenge = true ∧ readAt ≤ expiresAt ∧ (∀ s ∈ w.sessions, s.tokenHash ≠ sha256 code) ∧
    ∃ k', w.made[k']? = some (.app id) ∧ token = generate k'

/-- The row of the code is gone. -/
def Burned (w : World) (code : Text) : Prop :=
  ∃ k id challenge expiresAt, w.IsCode k id challenge expiresAt ∧ sha256 code = sha256 (generate k) ∧ ∀ s ∈ w.sessions, s.id ≠ id

def AnswerOk (w : World) : Answer → Prop
  | .redeemed code verifier token _ readAt => Redeemed sha256 s256 generate w code verifier token readAt
  | .burned code => Burned sha256 generate w code
  | .bearer token _ => ∃ k id, w.made[k]? = some (.app id) ∧ sha256 token = sha256 (generate k)
  | .console token _ => ∃ k id, w.made[k]? = some (.console id) ∧ sha256 token = sha256 (generate k)

structure Sound (w : World) : Prop where
  rows : ∀ s ∈ w.sessions, RowOk sha256 generate w s
  codes : ∀ k id challenge expiresAt, w.IsCode k id challenge expiresAt → id < w.nextId
  answers : ∀ a ∈ w.answers, AnswerOk sha256 s256 generate w a
  once : ((w.answers.filterMap Answer.redeemedCode).map sha256).Nodup

/-- What a call has found out before it makes a statement. -/
def Checked (w : World) : SessionStmt → Prop
  | .swap code verifier id _ readAt _ => ∃ k challenge expiresAt, w.IsCode k id challenge expiresAt ∧
      sha256 code = sha256 (generate k) ∧ pkceMatches s256 verifier challenge = true ∧ readAt ≤ expiresAt
  | .burn code id => ∃ k challenge expiresAt, w.IsCode k id challenge expiresAt ∧ sha256 code = sha256 (generate k)
  | .touch _ _ (.bearer token _) => ∃ k id, w.made[k]? = some (.app id) ∧ sha256 token = sha256 (generate k)
  | .touch _ _ (.console token _) => ∃ k id, w.made[k]? = some (.console id) ∧ sha256 token = sha256 (generate k)
  | .touch _ _ _ => False
  | _ => True

theorem sound_noSessions (active : Text → Bool) (now : ℕ) : Sound sha256 s256 generate (noSessions active now) :=
  ⟨by simp [noSessions], by simp [noSessions, World.IsCode], by simp [noSessions], by simp [noSessions]⟩

variable {sha256 s256 generate} {w w' : World}

/-! What a statement does. -/

theorem mem_updateMany {sel : Session → Bool} {f : Session → Session} {sessions : List Session} {s' : Session} :
    s' ∈ updateMany sel f sessions ↔ ∃ s ∈ sessions, (if sel s then f s else s) = s' := List.mem_map

theorem follows_of_subset (hlater : w.Later w') (hnext : w.nextId ≤ w'.nextId) (hsub : w'.sessions ⊆ w.sessions) :
    Follows sha256 generate w w' :=
  ⟨hlater, hnext, fun s hs => Or.inl ⟨s, hsub hs, rfl⟩, fun s hs => Or.inl ⟨s, hsub hs, rfl⟩⟩

theorem follows_of_new {s : Session} (hlater : w.Later w') (hnext : w.nextId ≤ w'.nextId) (hsessions : w'.sessions = w.sessions ++ [s])
    (hid : s.id = w.nextId) (hhash : s.tokenHash = sha256 (generate w.made.length)) : Follows sha256 generate w w' := by
  have hmem : ∀ s' ∈ w'.sessions, s' ∈ w.sessions ∨ s' = s := by
    intro s' hs'
    rwa [hsessions, List.mem_append, List.mem_singleton] at hs'
  refine ⟨hlater, hnext, fun s' hs' => ?_, fun s' hs' => ?_⟩
  · rcases hmem s' hs' with hold | rfl
    · exact Or.inl ⟨s', hold, rfl⟩
    · exact Or.inr hid.ge
  · rcases hmem s' hs' with hold | rfl
    · exact Or.inl ⟨s', hold, rfl⟩
    · exact Or.inr ⟨_, le_rfl, hhash⟩

/-- Rows are updated, and where their hash changes it is that of a token that was just generated. -/
theorem follows_of_update {sel : Session → Bool} {f : Session → Session} (hlater : w.Later w') (hnext : w.nextId ≤ w'.nextId)
    (hsessions : w'.sessions = updateMany sel f w.sessions) (hid : ∀ s, (f s).id = s.id)
    (hhash : ∀ s, (f s).tokenHash = s.tokenHash ∨ (f s).tokenHash = sha256 (generate w.made.length)) : Follows sha256 generate w w' := by
  have hmem : ∀ s' ∈ w'.sessions, ∃ s ∈ w.sessions, s' = s ∨ s' = f s := by
    intro s' hs'
    rw [hsessions] at hs'
    obtain ⟨s, hs, rfl⟩ := mem_updateMany.1 hs'
    refine ⟨s, hs, ?_⟩
    split_ifs
    · exact Or.inr rfl
    · exact Or.inl rfl
  refine ⟨hlater, hnext, fun s' hs' => ?_, fun s' hs' => ?_⟩
  · obtain ⟨s, hs, rfl | rfl⟩ := hmem s' hs'
    · exact Or.inl ⟨s', hs, rfl⟩
    · exact Or.inl ⟨s, hs, hid s⟩
  · obtain ⟨s, hs, rfl | rfl⟩ := hmem s' hs'
    · exact Or.inl ⟨s', hs, rfl⟩
    · rcases hhash s with hsame | hnew
      · exact Or.inl ⟨s, hs, hsame⟩
      · exact Or.inr ⟨_, le_rfl, hnew⟩

theorem follows_apply (s : SessionStmt) (w : World) : Follows sha256 generate w (s.apply sha256 generate w) := by
  have hmade : ∀ use, w.made <+: w.made ++ [use] := fun use => List.prefix_append _ _
  cases s with
  | read => exact follows_of_subset (World.Later.refl w) le_rfl (List.Subset.refl _)
  | issue userId challenge now => exact follows_of_new ⟨hmade _, le_rfl⟩ (Nat.le_succ _) rfl rfl rfl
  | create userId expiresAt => exact follows_of_new ⟨hmade _, le_rfl⟩ (Nat.le_succ _) rfl rfl rfl
  | swap code verifier id userId readAt now =>
    exact follows_of_update ⟨hmade _, le_rfl⟩ le_rfl rfl (fun _ => rfl) fun _ => Or.inr rfl
  | burn code id => exact follows_of_subset ⟨List.prefix_refl _, le_rfl⟩ le_rfl (List.filter_subset_self _)
  | touch id now answer =>
    exact follows_of_update ⟨List.prefix_refl _, le_rfl⟩ le_rfl rfl (fun _ => rfl) fun _ => Or.inl rfl
  | deleteMany sel => exact follows_of_subset ⟨List.prefix_refl _, le_rfl⟩ le_rfl (List.filter_subset_self _)
  | setStatus userId active => exact follows_of_subset ⟨List.prefix_refl _, le_rfl⟩ le_rfl (List.Subset.refl _)
  | wait ms => exact follows_of_subset ⟨List.prefix_refl _, Nat.le_add_right _ _⟩ le_rfl (List.Subset.refl _)

/-! What stays true. -/

section Fresh

variable (hfresh : Function.Injective fun k => sha256 (generate k))
include hfresh

variable {s : Session}

theorem RowOk.of_code (h : RowOk sha256 generate w s) {k id expiresAt : ℕ} {challenge : Text}
    (hcode : w.IsCode k id challenge expiresAt) (hhash : s.tokenHash = sha256 (generate k)) :
    (Use.code id challenge expiresAt).Fits s := by
  obtain ⟨-, k', use, huse, hhash', hfits⟩ := h
  obtain rfl : k' = k := hfresh (hhash'.symm.trans hhash)
  obtain rfl : use = .code id challenge expiresAt := Option.some.inj (huse.symm.trans hcode)
  exact hfits

theorem Redeemed.follows {code token : Text} {verifier : Option Text} {readAt : ℕ} (hf : Follows sha256 generate w w')
    (h : Redeemed sha256 s256 generate w code verifier token readAt) : Redeemed sha256 s256 generate w' code verifier token readAt := by
  obtain ⟨k, id, challenge, expiresAt, hcode, hhash, hpkce, htime, hgone, k', happ, htoken⟩ := h
  refine ⟨k, id, challenge, expiresAt, hf.later.use hcode, hhash, hpkce, htime, fun s' hs' heq => ?_, k', hf.later.use happ, htoken⟩
  rcases hf.hashes s' hs' with ⟨s, hs, hsame⟩ | ⟨j, hj, hnew⟩
  · exact hgone s hs (hsame.symm.trans heq)
  · -- a token that is new is not the code
    obtain rfl : j = k := hfresh (hnew.symm.trans (heq.trans hhash))
    exact absurd (List.getElem?_eq_some_iff.1 hcode).1 (Nat.not_lt.2 hj)

omit hfresh in
theorem Burned.follows {code : Text} (hs : Sound sha256 s256 generate w) (hf : Follows sha256 generate w w')
    (h : Burned sha256 generate w code) : Burned sha256 generate w' code := by
  obtain ⟨k, id, challenge, expiresAt, hcode, hhash, hgone⟩ := h
  refine ⟨k, id, challenge, expiresAt, hf.later.use hcode, hhash, fun s' hs' heq => ?_⟩
  rcases hf.ids s' hs' with ⟨s, hs, hsame⟩ | hnew
  · exact hgone s hs (hsame.symm.trans heq)
  · exact absurd (hs.codes k id challenge expiresAt hcode) (Nat.not_lt.2 (heq ▸ hnew))

theorem AnswerOk.follows {a : Answer} (hs : Sound sha256 s256 generate w) (hf : Follows sha256 generate w w')
    (h : AnswerOk sha256 s256 generate w a) : AnswerOk sha256 s256 generate w' a := by
  cases a with
  | redeemed code verifier token userId readAt => exact Redeemed.follows hfresh hf h
  | burned code => exact Burned.follows hs hf h
  | bearer token sessionId =>
    obtain ⟨k, id, happ, hhash⟩ := h
    exact ⟨k, id, hf.later.use happ, hhash⟩
  | console token userId =>
    obtain ⟨k, id, happ, hhash⟩ := h
    exact ⟨k, id, hf.later.use happ, hhash⟩

omit hfresh in
theorem RowOk.later (hlater : w.Later w') (hnext : w.nextId ≤ w'.nextId) (h : RowOk sha256 generate w s) :
    RowOk sha256 generate w' s := by
  obtain ⟨hid, k, use, huse, hrest⟩ := h
  exact ⟨hid.trans_le hnext, k, use, hlater.use huse, hrest⟩

theorem Sound.of_subset (hs : Sound sha256 s256 generate w) (hf : Follows sha256 generate w w') (hmade : w'.made = w.made)
    (hnext : w'.nextId = w.nextId) (hrows : ∀ s ∈ w'.sessions, RowOk sha256 generate w' s)
    (hanswers : ∀ a ∈ w'.answers, a ∈ w.answers ∨ AnswerOk sha256 s256 generate w' a)
    (honce : w'.answers.filterMap Answer.redeemedCode = w.answers.filterMap Answer.redeemedCode) : Sound sha256 s256 generate w' := by
  refine ⟨hrows, fun k id challenge expiresAt hcode => ?_, fun a ha => ?_, ?_⟩
  · rw [World.IsCode, hmade] at hcode
    rw [hnext]
    exact hs.codes k id challenge expiresAt hcode
  · rcases hanswers a ha with hold | hnew
    · exact (hs.answers a hold).follows hfresh hs hf
    · exact hnew
  · rw [honce]
    exact hs.once

theorem Sound.of_new {use : Use} (hs : Sound sha256 s256 generate w) (hf : Follows sha256 generate w w') (hmade : w'.made = w.made ++ [use])
    (huse : ∀ id challenge expiresAt, use = .code id challenge expiresAt → id < w'.nextId)
    (hrows : ∀ s ∈ w'.sessions, RowOk sha256 generate w' s)
    (hanswers : ∀ a ∈ w'.answers, a ∈ w.answers ∨ AnswerOk sha256 s256 generate w' a)
    (honce : ((w'.answers.filterMap Answer.redeemedCode).map sha256).Nodup) : Sound sha256 s256 generate w' := by
  refine ⟨hrows, fun k id challenge expiresAt hcode => ?_, fun a ha => ?_, honce⟩
  · rw [World.IsCode, hmade, List.getElem?_append] at hcode
    split_ifs at hcode
    · exact (hs.codes k id challenge expiresAt hcode).trans_le hf.nextId
    · exact huse id challenge expiresAt (List.mem_singleton.1 (List.mem_of_getElem? hcode)).symm
  · rcases hanswers a ha with hold | hnew
    · exact (hs.answers a hold).follows hfresh hs hf
    · exact hnew

omit hfresh in
theorem rowOk_new {use : Use} (hmade : w'.made = w.made ++ [use]) (hid : s.id < w'.nextId)
    (hhash : s.tokenHash = sha256 (generate w.made.length)) (hfits : use.Fits s) : RowOk sha256 generate w' s :=
  ⟨hid, w.made.length, use, by rw [hmade, List.getElem?_concat_length], hhash, hfits⟩

omit hfresh in
theorem RowOk.seen (h : RowOk sha256 generate w s) (now : ℕ) : RowOk sha256 generate w { s with lastSeenAt := now } := by
  obtain ⟨hid, k, use, huse, hhash, hfits⟩ := h
  refine ⟨hid, k, use, huse, hhash, ?_⟩
  cases use with
  | code id challenge expiresAt => exact hfits
  | app id => exact hfits
  | console id => exact hfits

omit hfresh in
theorem Sound.not_redeemed (hs : Sound sha256 s256 generate w) (hmem : s ∈ w.sessions) :
    s.tokenHash ∉ (w.answers.filterMap Answer.redeemedCode).map sha256 := by
  intro hin
  obtain ⟨code, hcode, heq⟩ := List.mem_map.1 hin
  obtain ⟨a, ha, hredeemed⟩ := List.mem_filterMap.1 hcode
  cases a with
  | redeemed code' verifier token userId readAt =>
    obtain rfl : code' = code := Option.some.inj hredeemed
    obtain ⟨_, _, _, _, -, -, -, -, hgone, -⟩ := hs.answers _ ha
    exact hgone s hmem heq.symm
  | burned code' => cases hredeemed
  | bearer token sessionId => cases hredeemed
  | console token userId => cases hredeemed

/-! The swap. -/

section Swap

variable {code userId : Text} {verifier : Option Text} {k id readAt now expiresAt : ℕ} {challenge : Text}

omit hfresh in
theorem ofCode_eq_true {s : Session} : ofCode sha256 code id s = true ↔ s.id = id ∧ s.tokenHash = sha256 code := by
  rw [ofCode, Bool.and_eq_true, decide_eq_true_eq, decide_eq_true_eq]

/-- A row that is not swapped is not the code's, and one that is swapped is the app's. -/
theorem mem_swap (hs : Sound sha256 s256 generate w) (hcode : w.IsCode k id challenge expiresAt)
    (hhash : sha256 code = sha256 (generate k)) {s' : Session}
    (hs' : s' ∈ ((SessionStmt.swap code verifier id userId readAt now).apply sha256 generate w).sessions) :
    s' ∈ w.sessions ∧ s'.tokenHash ≠ sha256 code ∨
      s'.tokenHash = sha256 (generate w.made.length) ∧ s'.id < w.nextId ∧ (Use.app id).Fits s' := by
  obtain ⟨s, hs₀, rfl⟩ := mem_updateMany.1 hs'
  have hrow := hs.rows s hs₀
  split_ifs with hsel
  · obtain ⟨hid, hmobile, -, -⟩ := hrow.of_code hfresh hcode ((ofCode_eq_true.1 hsel).2.trans hhash)
    exact Or.inr ⟨rfl, hrow.1, hid, hmobile, rfl⟩
  · refine Or.inl ⟨hs₀, fun heq => hsel ?_⟩
    -- a row with the hash of the code has its id, and is selected
    obtain ⟨hid, -⟩ := hrow.of_code hfresh hcode (heq.trans hhash)
    exact ofCode_eq_true.2 ⟨hid, heq⟩

theorem swap_gone (hs : Sound sha256 s256 generate w) (hcode : w.IsCode k id challenge expiresAt)
    (hhash : sha256 code = sha256 (generate k)) {s' : Session}
    (hs' : s' ∈ ((SessionStmt.swap code verifier id userId readAt now).apply sha256 generate w).sessions) :
    s'.tokenHash ≠ sha256 code := by
  rcases mem_swap hfresh hs hcode hhash hs' with ⟨-, hne⟩ | ⟨hnew, -⟩
  · exact hne
  · intro heq
    have hk : w.made.length = k := hfresh (hnew.symm.trans (heq.trans hhash))
    exact absurd (List.getElem?_eq_some_iff.1 hcode).1 (Nat.not_lt.2 hk.le)

theorem sound_swap (hs : Sound sha256 s256 generate w)
    (hchecked : Checked sha256 s256 generate w (.swap code verifier id userId readAt now)) :
    Sound sha256 s256 generate ((SessionStmt.swap code verifier id userId readAt now).apply sha256 generate w) := by
  obtain ⟨k, challenge, expiresAt, hcode, hhash, hpkce, htime⟩ := hchecked
  have hf : Follows sha256 generate w ((SessionStmt.swap code verifier id userId readAt now).apply sha256 generate w) :=
    follows_apply _ w
  have hrows : ∀ s' ∈ ((SessionStmt.swap code verifier id userId readAt now).apply sha256 generate w).sessions,
      RowOk sha256 generate ((SessionStmt.swap code verifier id userId readAt now).apply sha256 generate w) s' := by
    intro s' hs'
    rcases mem_swap hfresh hs hcode hhash hs' with ⟨hold, -⟩ | ⟨hnew, hid, hfits⟩
    · exact (hs.rows s' hold).later hf.later hf.nextId
    · exact rowOk_new (w := w) rfl hid hnew hfits
  by_cases hcount : w.sessions.countP (ofCode sha256 code id) = 1
  · refine Sound.of_new hfresh hs hf rfl (by simp) hrows (fun a ha => ?_) ?_
    · simp only [SessionStmt.apply, hcount, if_true, List.mem_append, List.mem_singleton] at ha
      rcases ha with hold | rfl
      · exact Or.inl hold
      · exact Or.inr ⟨k, id, challenge, expiresAt, hf.later.use hcode, hhash, hpkce, htime,
          fun s' hs' => swap_gone hfresh hs hcode hhash hs', w.made.length, List.getElem?_concat_length, rfl⟩
    · obtain ⟨s, hmem, hsel⟩ := List.countP_pos_iff.1 (hcount ▸ Nat.one_pos)
      have hfirst := hs.not_redeemed hmem
      rw [(ofCode_eq_true.1 hsel).2] at hfirst
      simp only [SessionStmt.apply, hcount, if_true, List.filterMap_append, List.map_append]
      exact List.Nodup.append hs.once (List.nodup_singleton _) (List.disjoint_singleton.2 hfirst)
  · refine Sound.of_new hfresh hs hf rfl (by simp) hrows (fun a ha => ?_) ?_
    · simp only [SessionStmt.apply, hcount, if_false] at ha
      exact Or.inl ha
    · simp only [SessionStmt.apply, hcount, if_false]
      exact hs.once

end Swap

theorem sound_apply {s : SessionStmt} (hs : Sound sha256 s256 generate w) (hchecked : Checked sha256 s256 generate w s) :
    Sound sha256 s256 generate (s.apply sha256 generate w) := by
  have hf : Follows sha256 generate w (s.apply sha256 generate w) := follows_apply s w
  have hold : ∀ s' ∈ w.sessions, RowOk sha256 generate (s.apply sha256 generate w) s' :=
    fun s' hs' => (hs.rows s' hs').later hf.later hf.nextId
  cases s with
  | read => exact hs
  | issue userId challenge now =>
    refine Sound.of_new hfresh hs hf rfl ?_ (fun s' hs' => ?_) (fun a ha => Or.inl ha) hs.once
    · rintro id challenge' expiresAt ⟨⟩
      exact Nat.lt_succ_self _
    · rcases List.mem_append.1 hs' with hs' | hs'
      · exact hold s' hs'
      · rw [List.mem_singleton.1 hs']
        exact rowOk_new (w := w) rfl (Nat.lt_succ_self _) rfl ⟨rfl, rfl, rfl, rfl⟩
  | create userId expiresAt =>
    refine Sound.of_new hfresh hs hf rfl (by simp) (fun s' hs' => ?_) (fun a ha => Or.inl ha) hs.once
    rcases List.mem_append.1 hs' with hs' | hs'
    · exact hold s' hs'
    · rw [List.mem_singleton.1 hs']
      exact rowOk_new (w := w) rfl (Nat.lt_succ_self _) rfl ⟨rfl, rfl, rfl⟩
  | swap code verifier id userId readAt now => exact sound_swap hfresh hs hchecked
  | burn code id =>
    refine Sound.of_subset hfresh hs hf rfl rfl (fun s' hs' => hold s' (List.mem_of_mem_filter hs')) (fun a ha => ?_) ?_
    · rcases List.mem_append.1 ha with ha | ha
      · exact Or.inl ha
      · obtain ⟨k, challenge, expiresAt, hcode, hhash⟩ := hchecked
        rw [List.mem_singleton.1 ha]
        exact Or.inr ⟨k, id, challenge, expiresAt, hcode, hhash, fun s' hs' => of_decide_eq_true (List.mem_filter.1 hs').2⟩
    · exact (List.filterMap_append ..).trans (List.append_nil _)
  | touch id now answer =>
    refine Sound.of_subset hfresh hs hf rfl rfl (fun s' hs' => ?_) (fun a ha => ?_) ?_
    · obtain ⟨s₀, hs₀, rfl⟩ := mem_updateMany.1 hs'
      split_ifs
      · exact (hold s₀ hs₀).seen now
      · exact hold s₀ hs₀
    · rcases List.mem_append.1 ha with ha | ha
      · exact Or.inl ha
      · rw [List.mem_singleton.1 ha]
        cases answer with
        | redeemed code verifier token userId readAt => exact hchecked.elim
        | burned code => exact hchecked.elim
        | bearer token sessionId => exact Or.inr hchecked
        | console token userId => exact Or.inr hchecked
    · cases answer with
      | redeemed code verifier token userId readAt => exact hchecked.elim
      | burned code => exact hchecked.elim
      | bearer token sessionId => exact (List.filterMap_append ..).trans (List.append_nil _)
      | console token userId => exact (List.filterMap_append ..).trans (List.append_nil _)
  | deleteMany sel =>
    exact Sound.of_subset hfresh hs hf rfl rfl (fun s' hs' => hold s' (List.mem_of_mem_filter hs')) (fun a ha => Or.inl ha) rfl
  | setStatus userId active => exact Sound.of_subset hfresh hs hf rfl rfl hold (fun a ha => Or.inl ha) rfl
  | wait ms => exact Sound.of_subset hfresh hs hf rfl rfl hold (fun a ha => Or.inl ha) rfl

end Fresh

/-! Rows that a call finds. -/

theorem RowOk.isCode {s : Session} (h : RowOk sha256 generate w s) {challenge : Text} (hchallenge : s.mobileChallenge = some challenge) :
    ∃ k, w.IsCode k s.id challenge s.expiresAt ∧ s.tokenHash = sha256 (generate k) := by
  obtain ⟨-, k, use, huse, hhash, hfits⟩ := h
  cases use with
  | code id challenge' expiresAt =>
    obtain ⟨rfl, -, heq, rfl⟩ := hfits
    obtain rfl : challenge' = challenge := Option.some.inj (heq.symm.trans hchallenge)
    exact ⟨k, huse, hhash⟩
  | app id => cases hfits.2.2.symm.trans hchallenge
  | console id => cases hfits.2.2.symm.trans hchallenge

theorem RowOk.isApp {s : Session} (h : RowOk sha256 generate w s) (hmobile : s.mobile = true) (hlive : s.mobileChallenge = none) :
    ∃ k id, w.made[k]? = some (.app id) ∧ s.tokenHash = sha256 (generate k) := by
  obtain ⟨-, k, use, huse, hhash, hfits⟩ := h
  cases use with
  | code id challenge expiresAt => cases hfits.2.2.1.symm.trans hlive
  | app id => exact ⟨k, id, huse, hhash⟩
  | console id => cases hfits.2.1.symm.trans hmobile

theorem RowOk.isConsole {s : Session} (h : RowOk sha256 generate w s) (hmobile : s.mobile = false) :
    ∃ k id, w.made[k]? = some (.console id) ∧ s.tokenHash = sha256 (generate k) := by
  obtain ⟨-, k, use, huse, hhash, hfits⟩ := h
  cases use with
  | code id challenge expiresAt => cases hfits.2.1.symm.trans hmobile
  | app id => cases hfits.2.1.symm.trans hmobile
  | console id => exact ⟨k, id, huse, hhash⟩

/-! Calls. -/

variable (sha256 s256 generate) in
/-- Going on from the world, a call has checked what it writes. -/
def Careful (w : World) (thread : SessionThread) : Prop :=
  thread.Relies World.Later (Sound sha256 s256 generate) (fun _ _ => True)
    (fun s f _ w => f = s.apply sha256 generate ∧ Checked sha256 s256 generate w s) w

theorem careful_read {next : World → SessionThread}
    (hnext : ∀ w', w.Later w' → Sound sha256 s256 generate w' → Careful sha256 s256 generate w' (next w')) :
    Careful sha256 s256 generate w (exec sha256 generate .read next) :=
  fun w' hlater hs => ⟨⟨rfl, trivial⟩, fun _ => hnext w' hlater hs⟩

theorem careful_finish {s : SessionStmt} (hchecked : ∀ w', w.Later w' → Checked sha256 s256 generate w' s) :
    Careful sha256 s256 generate w (finish sha256 generate s) :=
  fun w' hlater _ => ⟨⟨rfl, hchecked w' hlater⟩, fun _ => trivial⟩

theorem careful_redeemMobileCode (code verifier : Option Text) :
    Careful sha256 s256 generate w (redeemMobileCode sha256 s256 generate code verifier) := by
  cases code with
  | none => trivial
  | some code =>
    rw [redeemMobileCode]
    split_ifs
    · trivial
    refine careful_read fun w₁ _ hs₁ => ?_
    split
    · trivial
    rename_i row hfind
    split
    · trivial
    rename_i challenge hchallenge
    split_ifs
    · trivial
    obtain ⟨k, hcode, hhash⟩ := (hs₁.rows row (List.mem_of_find?_eq_some hfind)).isCode hchallenge
    have hrow := List.find?_some hfind
    simp only [Bool.and_eq_true, decide_eq_true_eq] at hrow
    have hhash' : sha256 code = sha256 (generate k) := hrow.1.1.symm.trans hhash
    refine careful_read fun w₂ hlater₂ _ => ?_
    split_ifs with hbad
    · exact careful_finish fun w₃ hlater₃ => ⟨k, challenge, row.expiresAt, (hlater₂.trans hlater₃).use hcode, hhash'⟩
    · simp only [Bool.or_eq_true, decide_eq_true_eq, Bool.not_eq_true', not_or, Bool.not_eq_false, Nat.not_lt] at hbad
      -- it was in time at the check, and so when it was read
      exact careful_finish fun w₃ hlater₃ =>
        ⟨k, challenge, row.expiresAt, (hlater₂.trans hlater₃).use hcode, hhash', hbad.2, hlater₂.now.trans hbad.1⟩

theorem careful_mobileSessionFromRequest (authorization : Option Text) :
    Careful sha256 s256 generate w (mobileSessionFromRequest sha256 generate authorization) := by
  rw [mobileSessionFromRequest]
  split
  · trivial
  rename_i token _
  refine careful_read fun w₁ _ hs₁ => ?_
  split
  · trivial
  rename_i s hfind
  have hrow := List.find?_some hfind
  simp only [Bool.and_eq_true, decide_eq_true_eq, Option.isNone_iff_eq_none] at hrow
  obtain ⟨k, id, happ, hhash⟩ := (hs₁.rows s (List.mem_of_find?_eq_some hfind)).isApp hrow.1.2 hrow.2
  refine careful_read fun w₂ hlater₂ _ => ?_
  split_ifs
  · trivial
  · exact careful_finish fun w₃ hlater₃ => ⟨k, id, (hlater₂.trans hlater₃).use happ, hrow.1.1.symm.trans hhash⟩

theorem careful_getSessionUser (token : Text) (idle : Option ℤ) :
    Careful sha256 s256 generate w (getSessionUser sha256 generate token idle) := by
  rw [getSessionUser]
  split_ifs
  · trivial
  refine careful_read fun w₁ _ hs₁ => ?_
  split
  · trivial
  rename_i s hfind
  refine careful_read fun w₂ hlater₂ _ => ?_
  split_ifs with hexpired hmobile hactive
  · trivial
  · trivial
  · trivial
  refine careful_read fun w₃ hlater₃ _ => ?_
  split_ifs
  · exact careful_finish fun _ _ => trivial
  · obtain ⟨k, id, hconsole, hhash⟩ := (hs₁.rows s (List.mem_of_find?_eq_some hfind)).isConsole (Bool.eq_false_of_not_eq_true hmobile)
    have htoken := List.find?_some hfind
    rw [decide_eq_true_eq] at htoken
    exact careful_finish fun w₄ hlater₄ =>
      ⟨k, id, ((hlater₂.trans hlater₃).trans hlater₄).use hconsole, htoken.symm.trans hhash⟩

theorem careful_thread (request : Request) : Careful sha256 s256 generate w (request.thread sha256 s256 generate) := by
  cases request with
  | issueMobileCode userId challenge => exact careful_read fun _ _ _ => careful_finish fun _ _ => trivial
  | redeemMobileCode code verifier => exact careful_redeemMobileCode code verifier
  | mobileSessionFromRequest authorization => exact careful_mobileSessionFromRequest authorization
  | getSessionUser token idle => exact careful_getSessionUser token idle
  | createSession userId ttlMs => exact careful_read fun _ _ _ => careful_finish fun _ _ => trivial
  | deleteMany sel => exact careful_finish fun _ _ => trivial
  | setStatus userId active => exact careful_finish fun _ _ => trivial
  | wait ms => exact careful_finish fun _ _ => trivial

theorem sound_run (hfresh : Function.Injective fun k => sha256 (generate k)) (active : Text → Bool) (now : ℕ) (requests : ℕ → Request)
    (schedule : List ℕ) : Sound sha256 s256 generate ((sessionPool sha256 s256 generate active now requests).run schedule).db := by
  have hkeep : ∀ s f (next : World → SessionThread) w, (f = s.apply sha256 generate ∧ Checked sha256 s256 generate w s) → True →
      Sound sha256 s256 generate w → Sound sha256 s256 generate (f w) ∧ w.Later (f w) := by
    rintro s f next w ⟨rfl, hchecked⟩ - hs
    exact ⟨sound_apply hfresh hs hchecked, (follows_apply s w).later⟩
  exact run_rely (p := sessionPool sha256 s256 generate active now requests) World.Later.refl (fun _ _ _ => World.Later.trans) hkeep
    (fun i => careful_thread (requests i)) (sound_noSessions sha256 s256 generate active now)
    (Lib.Run.meets_of_always (fun _ _ _ _ => trivial) _ _)

/-- However the calls interleave with each other and with all else that is done to sessions: of the calls for one code at
most one returns a token, with a verifier of the challenge of a code that was good when it was read; after a refusal that
deleted the code no row of it is there; no code is taken for a bearer token, and no token of the app for a cookie. -/
theorem mobile_code_once (sha256 s256 : Text → Text) (generate : ℕ → Text) (hfresh : Function.Injective fun k => sha256 (generate k))
    (active : Text → Bool) (now : ℕ) (requests : ℕ → Request) (schedule : List ℕ) :
    let w := ((sessionPool sha256 s256 generate active now requests).run schedule).db
    ((w.answers.filterMap Answer.redeemedCode).map sha256).Nodup ∧
      (∀ code verifier token userId readAt, .redeemed code verifier token userId readAt ∈ w.answers →
        ∃ k id challenge expiresAt, w.IsCode k id challenge expiresAt ∧ sha256 code = sha256 (generate k) ∧
          pkceMatches s256 verifier challenge = true ∧ readAt ≤ expiresAt) ∧
      (∀ code, .burned code ∈ w.answers → ∃ k id challenge expiresAt, w.IsCode k id challenge expiresAt ∧
        sha256 code = sha256 (generate k) ∧ ∀ s ∈ w.sessions, s.id ≠ id ∧ s.tokenHash ≠ sha256 code) ∧
      (∀ k id challenge expiresAt token sessionId, w.IsCode k id challenge expiresAt → .bearer token sessionId ∈ w.answers →
        sha256 token ≠ sha256 (generate k)) ∧
      (∀ code verifier token userId readAt cookie userId', .redeemed code verifier token userId readAt ∈ w.answers →
        .console cookie userId' ∈ w.answers → sha256 cookie ≠ sha256 token) := by
  intro w
  have hs : Sound sha256 s256 generate w := sound_run hfresh active now requests schedule
  refine ⟨hs.once, fun code verifier token userId readAt hmem => ?_, fun code hmem => ?_, fun k id challenge expiresAt token sessionId hcode hmem heq => ?_,
    fun code verifier token userId readAt cookie userId' hmem hmem' heq => ?_⟩
  · obtain ⟨k, id, challenge, expiresAt, hcode, hhash, hpkce, htime, -⟩ := hs.answers _ hmem
    exact ⟨k, id, challenge, expiresAt, hcode, hhash, hpkce, htime⟩
  · obtain ⟨k, id, challenge, expiresAt, hcode, hhash, hgone⟩ := hs.answers _ hmem
    refine ⟨k, id, challenge, expiresAt, hcode, hhash, fun s hmem => ⟨hgone s hmem, fun heq => ?_⟩⟩
    exact hgone s hmem ((hs.rows s hmem).of_code hfresh hcode (heq.trans hhash)).1
  · obtain ⟨k', id', happ, hhash⟩ := hs.answers _ hmem
    obtain rfl : k' = k := hfresh (hhash.symm.trans heq)
    cases happ.symm.trans hcode
  · obtain ⟨_, _, _, _, -, -, -, -, -, k, happ, rfl⟩ := hs.answers _ hmem
    obtain ⟨k', id', hconsole, hhash⟩ := hs.answers _ hmem'
    obtain rfl : k' = k := hfresh (hhash.symm.trans heq)
    cases happ.symm.trans hconsole

/-! One code, asked for twice at once. -/

def tokenNo (k : ℕ) : Text := List.replicate (k + 20) 'a'

def goodVerifier : Text := List.replicate 43 'v'

def twoRedeems : ℕ → Request
  | 0 => .issueMobileCode "u".toList goodVerifier
  | 1 | 2 => .redeemMobileCode (some (tokenNo 0)) (some goodVerifier)
  | 3 => .redeemMobileCode (some (tokenNo 0)) none
  | 4 => .mobileSessionFromRequest (some ("Bearer ".toList ++ tokenNo 1))
  | _ => .getSessionUser (tokenNo 1) none

/-- Both read the code, and one has a token, which is good for the app and not as a cookie. A third, which had read it too,
ends the session. -/
theorem mobile_code_once_two_redeems :
    let w := ((sessionPool id id tokenNo (fun _ => true) 0 twoRedeems).run [0, 0, 1, 2, 3, 1, 2, 3, 1, 2, 4, 4, 4, 5, 5, 3]).db
    w.answers = [.redeemed (tokenNo 0) (some goodVerifier) (tokenNo 1) "u".toList 0, .bearer (tokenNo 1) 0, .burned (tokenNo 0)] ∧
      ((w.answers.filterMap Answer.redeemedCode).map id).Nodup ∧ w.sessions = [] := by
  refine ⟨by decide +kernel, (mobile_code_once id id tokenNo (fun a b h => ?_) (fun _ => true) 0 twoRedeems _).1, by decide +kernel⟩
  have hlength := congrArg List.length h
  simp only [id, tokenNo, List.length_replicate] at hlength
  omega

end

end Captivo.Mobile
