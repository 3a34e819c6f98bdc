import CaptivoAccess.Proofs.CanonicalText

/-! Which admin actions are told apart by their canonical text, and both chains together. -/

namespace Captivo.Audit

open Lib.JsonText Lib.JsValue Lib.HashChain Lib.Separated

/-- What the metadata of an action is hashed as. -/
def metadataValue : Option Metadata → JsVal
  | some m => .obj m.fields
  | none => .null

/-- The attested fields are equal, with the metadata as JSON values, where the order of keys is none. -/
def AdminChainable.Same (e e' : AdminChainable) : Prop :=
  toJson e.metadata = toJson e'.metadata ∧ { e with metadata := .null } = { e' with metadata := .null }

/-- No field of the metadata is `null` or an empty object, at any depth. -/
def rigidMetadata (m : Metadata) : Bool := rigidFields (toJsonFields m.fields)

namespace AdminInput

/-- The texts before the metadata. -/
def block (i : AdminInput) : List Units :=
  [i.actorId, i.actorEmail.getD [], i.action, i.targetType.getD [], i.targetId.getD [], i.summary]

def optional (i : AdminInput) : List (Option Units) := [i.actorEmail, i.targetType, i.targetId, i.clientIp]

structure Unambiguous (i : AdminInput) : Prop where
  texts : ∀ t ∈ i.block, 31 ∉ t
  optional : ∀ o ∈ i.optional, o.getD [] ≠ []
  metadata : i.metadata.all rigidMetadata = true
  /-- No piece of the address before its last separator is the text of a metadata value. -/
  clientIp : ∀ piece ∈ ((i.clientIp.getD []).splitOn 31).dropLast, ∀ m, piece ≠ stableStringify (metadataValue m)

theorem canonicalizeAdmin_eq (iso : ℤ → Units) (i : AdminInput) (seq : ℕ) :
    canonicalizeAdmin iso (i.chainable seq) = [31].intercalate
      (([bigintText seq, iso i.now] ++ i.block) ++ [stableStringify (metadataValue i.metadata), i.clientIp.getD []]) := by
  rw [canonicalizeAdmin, joinUS_eq]
  cases h : i.metadata <;> simp [chainable, block, metadataValue, h]

end AdminInput

section Admin

variable {env : Env} {i : AdminInput}

/-- The row of an action, as it is read back. -/
def readBack (env : Env) (head : ChainHead) (i : AdminInput) : AdminChainable := (adminRow env head i).stored.event

theorem readBack_metadata (head : ChainHead) :
    toJson (readBack env head i).metadata = toJson (roundTrip env.toISOString env.column (metadataValue i.metadata)) := by
  cases h : i.metadata <;> simp [readBack, adminRow, AdminAuditEvent.stored, metadataValue, roundTrip, h]

theorem distinct_metadataValue (m : Option Metadata) : distinct (metadataValue m) = true := by
  cases m with
  | none => rfl
  | some m => exact m.distinct

theorem plain_metadataValue {m m' : Option Metadata} (hrigid : m.all rigidMetadata = true)
    (h : toJson (metadataValue m') = toJson (metadataValue m)) : plain (metadataValue m') = true := by
  cases m' with
  | none => rfl
  | some m' =>
    cases m with
    | none => simp [metadataValue, toJson] at h
    | some m =>
      rw [metadataValue, metadataValue, toJson, toJson, Json.obj.injEq] at h
      refine plainFields_of_rigid _ ?_
      rw [← rigidFields_sortByKey, h, rigidFields_sortByKey]
      exact hrigid

/-- Metadata that is read off its text is stored alike by every action with that text. -/
theorem stored_metadata_eq {i' : AdminInput} (hrigid : i.metadata.all rigidMetadata = true)
    (h : stableStringify (metadataValue i'.metadata) = stableStringify (metadataValue i.metadata)) (head head' : ChainHead) :
    toJson (readBack env head' i').metadata = toJson (readBack env head i).metadata := by
  rw [stableStringify_eq_iff] at h
  have htrip : ∀ m : Option Metadata, toJson (metadataValue m) = toJson (metadataValue i.metadata) →
      toJson (roundTrip env.toISOString env.column (metadataValue m)) = toJson (metadataValue m) :=
    fun m hm => (toJson_roundTrip_iff _ _ _ (distinct_metadataValue m)).2 (plain_metadataValue hrigid hm)
  rw [readBack_metadata, readBack_metadata, htrip _ h, htrip _ rfl, h]

theorem same_of_canonicalizeAdmin_eq (hinj : Function.Injective env.toISOString) (hiso : ∀ t, 31 ∉ env.toISOString t)
    (hi : i.Unambiguous) {head head' : ChainHead} {i' : AdminInput}
    (h : canonicalizeAdmin env.toISOString (i'.chainable (head'.lastSeq + 1)) =
      canonicalizeAdmin env.toISOString (i.chainable (head.lastSeq + 1))) :
    (readBack env head' i').Same (readBack env head i) := by
  rw [AdminInput.canonicalizeAdmin_eq, AdminInput.canonicalizeAdmin_eq] at h
  have hfree : ∀ t ∈ [bigintText (head.lastSeq + 1), env.toISOString i.now] ++ i.block, 31 ∉ t := by
    refine List.forall_mem_append.2 ⟨?_, hi.texts⟩
    exact List.forall_mem_cons.2 ⟨separator_not_mem_units (isNumeral_nat _), List.forall_mem_singleton.2 (hiso _)⟩
  rcases eq_or_piece_of_join_eq hfree (by simp [AdminInput.block]) (separator_not_mem_stableStringify _)
      (separator_not_mem_stableStringify _) h with
    ⟨htexts, hmetadata, hip⟩ | hpiece
  · simp only [AdminInput.block, List.cons_append, List.nil_append, List.cons.injEq, and_true] at htexts
    obtain ⟨hseq, hnow, hactor, hemail, haction, htype, hid, hsummary⟩ := htexts
    have hopt := hi.optional
    simp only [AdminInput.optional, List.forall_mem_cons] at hopt
    obtain ⟨oemail, otype, oid, oip, -⟩ := hopt
    refine ⟨stored_metadata_eq hi.metadata hmetadata head head', ?_⟩
    simp only [readBack, adminRow, AdminAuditEvent.stored, AdminChainable.mk.injEq, Option.some.injEq, true_and]
    exact ⟨bigintText_injective hseq, hinj hnow, hactor, eq_of_getD_eq oemail hemail, haction, eq_of_getD_eq otype htype,
      eq_of_getD_eq oid hid, hsummary, eq_of_getD_eq oip hip⟩
  · exact absurd rfl (hi.clientIp _ hpiece i'.metadata)

/-! The other way round: what is ambiguous has another action with its text. -/

/-- Another action with the same canonical text is stored as something else. -/
def Confusable (env : Env) (head : ChainHead) (i : AdminInput) : Prop :=
  ∃ i' : AdminInput, canonicalizeAdmin env.toISOString (i'.chainable (head.lastSeq + 1)) =
      canonicalizeAdmin env.toISOString (i.chainable (head.lastSeq + 1)) ∧
    ¬ (readBack env head i').Same (readBack env head i)

variable {head : ChainHead}

theorem confusable_of_block (i' : AdminInput) (hnow : i'.now = i.now)
    (htext : [31].intercalate (i'.block ++ [stableStringify (metadataValue i'.metadata), i'.clientIp.getD []]) =
      [31].intercalate (i.block ++ [stableStringify (metadataValue i.metadata), i.clientIp.getD []]))
    (hdiff : ¬ (readBack env head i').Same (readBack env head i)) : Confusable env head i := by
  refine ⟨i', ?_, hdiff⟩
  have hcongr := join_congr [bigintText (head.lastSeq + 1), env.toISOString i.now] [] (by simp) (by simp) htext
  rw [List.append_nil, List.append_nil] at hcongr
  rw [AdminInput.canonicalizeAdmin_eq, AdminInput.canonicalizeAdmin_eq, hnow, List.append_assoc, List.append_assoc, hcongr]

theorem block_eq_of_same {i' : AdminInput} (h : (readBack env head i').Same (readBack env head i)) :
    i'.block = i.block ∧ i'.optional = i.optional := by
  have heq := h.2
  simp only [readBack, adminRow, AdminAuditEvent.stored, AdminChainable.mk.injEq, Option.some.injEq, true_and] at heq
  obtain ⟨-, hactor, hemail, haction, htype, hid, hsummary, hip⟩ := heq
  simp only [AdminInput.block, AdminInput.optional, hactor, hemail, haction, htype, hid, hsummary, hip, and_self]

theorem confusable_of_separator (h : ∃ t ∈ i.block, 31 ∈ t) : Confusable env head i := by
  obtain ⟨us, hne, hlen, hjoin⟩ := exists_shift (by simp [AdminInput.block]) h
  match us, hlen with
  | [actorId, actorEmail, action, targetType, targetId, summary], _ =>
    let i' : AdminInput := { i with
      actorId := actorId, actorEmail := some actorEmail, action := action, targetType := some targetType,
      targetId := some targetId, summary := summary }
    have hblock : i'.block ≠ [] ∧ i.block ≠ [] := ⟨List.cons_ne_nil _ _, List.cons_ne_nil _ _⟩
    refine confusable_of_block i' rfl ?_ fun hsame => hne (block_eq_of_same hsame).1
    exact join_congr [] _ hblock.2 hblock.1 hjoin

theorem confusable_of_missing (h : ∃ o ∈ i.optional, o.getD [] = []) : Confusable env head i := by
  have hother : ∀ i' : AdminInput, i'.now = i.now → i'.block = i.block → i'.metadata = i.metadata →
      i'.clientIp.getD [] = i.clientIp.getD [] → i'.optional ≠ i.optional → Confusable env head i := by
    intro i' hnow hblock hmetadata hip hne
    refine confusable_of_block i' hnow ?_ fun hsame => hne (block_eq_of_same hsame).2
    rw [hblock, hmetadata, hip]
  obtain ⟨o, ho, hempty⟩ := h
  have htoggle := getD_toggle hempty
  have hdiff := toggle_ne o
  simp only [AdminInput.optional, List.mem_cons, List.not_mem_nil, or_false] at ho
  rcases ho with rfl | rfl | rfl | rfl
  · exact hother { i with actorEmail := toggle i.actorEmail } rfl (by simp [AdminInput.block, htoggle]) rfl rfl
      (by simp [AdminInput.optional, hdiff])
  · exact hother { i with targetType := toggle i.targetType } rfl (by simp [AdminInput.block, htoggle]) rfl rfl
      (by simp [AdminInput.optional, hdiff])
  · exact hother { i with targetId := toggle i.targetId } rfl (by simp [AdminInput.block, htoggle]) rfl rfl
      (by simp [AdminInput.optional, hdiff])
  · exact hother { i with clientIp := toggle i.clientIp } rfl rfl rfl htoggle (by simp [AdminInput.optional, hdiff])

/-- The metadata in another guise, with the same text. -/
def Metadata.recast (loose : Bool) (m : Metadata) : Metadata where
  fields := recastFields loose m.fields
  distinct := by
    have h := m.distinct
    rw [Lib.JsValue.distinct, Bool.and_eq_true] at h
    rw [Lib.JsValue.distinct, recastFields_keys, Bool.and_eq_true]
    exact ⟨h.1, distinctFields_recastFields loose m.fields h.2⟩

theorem confusable_of_loose (h : i.metadata.all rigidMetadata = false) : Confusable env head i := by
  cases hm : i.metadata with
  | none => simp [hm] at h
  | some m =>
    rw [hm, Option.all_some] at h
    let recasted (loose : Bool) : AdminInput := { i with metadata := some (m.recast loose) }
    have hjson : ∀ loose, toJson (metadataValue (recasted loose).metadata) = toJson (metadataValue i.metadata) := by
      intro loose
      rw [hm]
      simp only [recasted, metadataValue, toJson, Metadata.recast, toJsonFields_recastFields]
    have htext : ∀ loose, [31].intercalate ((recasted loose).block ++
          [stableStringify (metadataValue (recasted loose).metadata), (recasted loose).clientIp.getD []]) =
        [31].intercalate (i.block ++ [stableStringify (metadataValue i.metadata), i.clientIp.getD []]) := by
      intro loose
      have hblock : (recasted loose).block = i.block := rfl
      have hip : (recasted loose).clientIp = i.clientIp := rfl
      rw [(stableStringify_eq_iff _ _).2 (hjson loose), hblock, hip]
    have hstored : ∀ loose, toJson (readBack env head (recasted loose)).metadata = toJson (metadataValue i.metadata) ↔
        plain (metadataValue (recasted loose).metadata) = true := by
      intro loose
      rw [readBack_metadata, ← hjson loose]
      exact toJson_roundTrip_iff _ _ _ (distinct_metadataValue _)
    have hkept := (hstored false).2 (plainFields_recast_false m.fields)
    have hlost : toJson (readBack env head (recasted true)).metadata ≠ toJson (metadataValue i.metadata) := by
      intro heq
      have hrigid := rigidFields_of_plain_recast m.fields ((hstored true).1 heq)
      rw [← rigidMetadata, h] at hrigid
      exact Bool.false_ne_true hrigid
    -- the column keeps one of them and changes the other: it does not store both as it stores this one
    by_cases hsame : (readBack env head (recasted true)).Same (readBack env head i)
    · refine confusable_of_block (recasted false) rfl (htext false) fun hsame' => hlost ?_
      rw [hsame.1, ← hsame'.1, hkept]
    · exact confusable_of_block (recasted true) rfl (htext true) hsame

theorem confusable_of_piece
    (h : ∃ piece ∈ ((i.clientIp.getD []).splitOn 31).dropLast, ∃ m, piece = stableStringify (metadataValue m)) :
    Confusable env head i := by
  obtain ⟨piece, hpiece, m, rfl⟩ := h
  obtain ⟨before, after, hsplit⟩ := List.append_of_mem hpiece
  have hne : (i.clientIp.getD []).splitOn 31 ≠ [] := List.splitOn_ne_nil _ _
  have hpieces := List.dropLast_append_getLast hne
  rw [hsplit, List.append_assoc, List.cons_append] at hpieces
  set rest := after ++ [((i.clientIp.getD []).splitOn 31).getLast hne]
  have hip : [31].intercalate (before ++ stableStringify (metadataValue m) :: rest) = i.clientIp.getD [] := by
    rw [hpieces, List.intercalate_splitOn]
  -- the summary takes the metadata and what is before the piece, and the address what is behind it
  let summary := [31].intercalate (i.summary :: stableStringify (metadataValue i.metadata) :: before)
  let i' : AdminInput := { i with summary := summary, metadata := m, clientIp := some ([31].intercalate rest) }
  let front : List Units := [i.actorId, i.actorEmail.getD [], i.action, i.targetType.getD [], i.targetId.getD []]
  have hlonger : summary ≠ i.summary := by
    intro heq
    have hlength := congrArg List.length heq
    simp only [summary] at hlength
    rw [List.intercalate_cons_of_ne_nil (List.cons_ne_nil _ _)] at hlength
    simp at hlength
  have hrest : [31].intercalate [[31].intercalate rest] = [31].intercalate rest := List.intercalate_singleton
  refine confusable_of_block i' rfl ?_ fun hsame => hlonger ?_
  · calc [31].intercalate (i'.block ++ [stableStringify (metadataValue i'.metadata), i'.clientIp.getD []])
      _ = [31].intercalate (front ++ ([summary] ++ ([stableStringify (metadataValue m)] ++ [[31].intercalate rest]))) := rfl
      _ = [31].intercalate (front ++ ((i.summary :: stableStringify (metadataValue i.metadata) :: before) ++
            ([stableStringify (metadataValue m)] ++ [[31].intercalate rest]))) :=
          join_congr _ _ (List.cons_ne_nil _ _) (List.cons_ne_nil _ _) List.intercalate_singleton
      _ = [31].intercalate ((front ++ ((i.summary :: stableStringify (metadataValue i.metadata) :: before) ++
            [stableStringify (metadataValue m)])) ++ (rest ++ [])) := by
          rw [← join_congr _ _ (by simp [rest]) (List.cons_ne_nil _ _) hrest]
          simp
      _ = [31].intercalate ((front ++ [i.summary, stableStringify (metadataValue i.metadata)]) ++
            ((before ++ stableStringify (metadataValue m) :: rest) ++ [])) := by simp
      _ = [31].intercalate ((front ++ [i.summary, stableStringify (metadataValue i.metadata)]) ++
            ([i.clientIp.getD []] ++ [])) := by
          refine (join_congr _ _ (by simp) (List.cons_ne_nil _ _) ?_).symm
          rw [List.intercalate_singleton, hip]
      _ = _ := rfl
  · have hblock := (block_eq_of_same hsame).1
    simp only [AdminInput.block, List.cons.injEq, and_true] at hblock
    exact hblock.2.2.2.2.2

theorem admin_unambiguous_iff (hinj : Function.Injective env.toISOString) (hiso : ∀ t, 31 ∉ env.toISOString t)
    (head : ChainHead) :
    (∀ (i' : AdminInput) (head' : ChainHead), canonicalizeAdmin env.toISOString (i'.chainable (head'.lastSeq + 1)) =
        canonicalizeAdmin env.toISOString (i.chainable (head.lastSeq + 1)) →
      (readBack env head' i').Same (readBack env head i)) ↔ i.Unambiguous := by
  refine ⟨fun h => ?_, fun hi i' head' heq => same_of_canonicalizeAdmin_eq hinj hiso hi heq⟩
  have hnot : ¬ Confusable env head i := by
    rintro ⟨i', heq, hdiff⟩
    exact hdiff (h i' head heq)
  refine ⟨?_, ?_, ?_, ?_⟩
  · exact fun t ht hmem => hnot (confusable_of_separator ⟨t, ht, hmem⟩)
  · exact fun o ho hempty => hnot (confusable_of_missing ⟨o, ho, hempty⟩)
  · rw [← Bool.not_eq_false]
    exact fun hloose => hnot (confusable_of_loose hloose)
  · exact fun piece hpiece m heq => hnot (confusable_of_piece ⟨piece, hpiece, m, heq⟩)

end Admin

/-- A row of the access chain, and an action of the admin chain, is told apart from every other one by its canonical text
exactly when it is unambiguous. -/
theorem canonical_text_injective_iff (env : Env) (hinj : Function.Injective env.toISOString)
    (hiso : ∀ t, 31 ∉ env.toISOString t) (e : ChainableEvent) (hp : Producible e) (i : AdminInput) (head : ChainHead) :
    ((∀ e', Producible e' → canonicalize env.toISOString e' = canonicalize env.toISOString e → e' = e) ↔ e.Unambiguous) ∧
    ((∀ (i' : AdminInput) (head' : ChainHead), canonicalizeAdmin env.toISOString (i'.chainable (head'.lastSeq + 1)) =
          canonicalizeAdmin env.toISOString (i.chainable (head.lastSeq + 1)) →
        (readBack env head' i').Same (readBack env head i)) ↔ i.Unambiguous) :=
  ⟨access_unambiguous_iff hinj hiso hp, admin_unambiguous_iff hinj hiso head⟩

/-! Rows of a clock that counts. -/

def countingEnv : Env := ⟨id, fun t => units (toString t), Jsonb.asWritten, fun _ => true⟩

def visit (reason userAgent : Option Units) : AuditInput :=
  ⟨some 0, some (units "u1"), some (units "s1"), some (units "crm"), some (units "GET"), some (units "/"), some 200, some 0,
    some (units "ALLOW"), reason, some (units "10.0.0.1"), userAgent⟩

def visitRow (reason userAgent : Option Units) : ChainableEvent :=
  (normalizeAuditInput ⟨fun _ => none, fun _ => none, none, []⟩ 0 (visit reason userAgent)).chainable 1

theorem producible_visitRow {reason userAgent : Option Units}
    (h : storable (normalizeAuditInput ⟨fun _ => none, fun _ => none, none, []⟩ 0 (visit reason userAgent)) = true) :
    Producible (visitRow reason userAgent) :=
  ⟨_, _, _, _, h, rfl⟩

def revoke (targetId summary : Units) : AdminInput :=
  ⟨0, units "a1", some (units "a@x.io"), units "grant.revoke", some (units "grant"), some targetId, summary, none,
    some (units "10.0.0.1")⟩

/-- A visit with every field is no other visit. -/
theorem canonical_text_injective_iff_visit :
    (visitRow (some (units "granted")) (some (units "curl"))).Unambiguous ∧
    ∀ e', Producible e' → canonicalize countingEnv.toISOString e' =
        canonicalize countingEnv.toISOString (visitRow (some (units "granted")) (some (units "curl"))) →
      e' = visitRow (some (units "granted")) (some (units "curl")) := by
  have hclear : (visitRow (some (units "granted")) (some (units "curl"))).Unambiguous := by
    constructor <;> decide
  have hinj : Function.Injective countingEnv.toISOString := fun _ _ h => intText_injective h
  have hiso : ∀ t, 31 ∉ countingEnv.toISOString t := fun t => separator_not_mem_units (isNumeral_int t)
  exact ⟨hclear, (canonical_text_injective_iff countingEnv hinj hiso _ (producible_visitRow (by decide))
    (revoke [] []) genesis).1.2 hclear⟩

/-- A visit with an empty user agent and one without any; and an action whose target takes the beginning of its summary. -/
theorem canonical_texts_collide :
    (Producible (visitRow none none) ∧ Producible (visitRow none (some [])) ∧
      canonicalize countingEnv.toISOString (visitRow none none) = canonicalize countingEnv.toISOString (visitRow none (some [])) ∧
      visitRow none none ≠ visitRow none (some [])) ∧
    canonicalizeAdmin countingEnv.toISOString ((revoke (units "g1\x1fg2") (units "gone")).chainable 1) =
      canonicalizeAdmin countingEnv.toISOString ((revoke (units "g1") (units "g2\x1fgone")).chainable 1) ∧
    ¬ (readBack countingEnv genesis (revoke (units "g1\x1fg2") (units "gone"))).Same
      (readBack countingEnv genesis (revoke (units "g1") (units "g2\x1fgone"))) := by
  refine ⟨⟨producible_visitRow (by decide), producible_visitRow (by decide), rfl, ?_⟩, by decide, ?_⟩
  · intro h
    exact absurd (congrArg ChainableEvent.userAgent h) (by decide)
  · intro h
    exact absurd (congrArg AdminChainable.summary h.2) (by decide)

end Captivo.Audit
