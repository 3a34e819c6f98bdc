import CaptivoAccess.Spec.PairingRun
import CaptivoAccess.Proofs.ConnectorRevoke

/-! A pairing is good for one token. Calls may scan and find it at once, but the update that
consumes it finds it unused only once, and the token is rotated in the same transaction;
so what is committed is a sequence of redemptions, each of a pairing that was unused,
and a connector has the token of the last one. -/

namespace Captivo.Enroll

open Lib.Txn Lib.Run Lib.ReadCommitted

/-! Writes. -/

theorem exists_of_forall₂ {α β : Type} {R : α → β → Prop} {xs : List α} {ys : List β} (h : List.Forall₂ R xs ys) {y : β} (hy : y ∈ ys) :
    ∃ x ∈ xs, R x y := by
  induction h with
  | nil => cases hy
  | cons hxy _ ih =>
    rcases List.mem_cons.1 hy with rfl | hy
    · exact ⟨_, List.mem_cons_self, hxy⟩
    · obtain ⟨x, hx, hR⟩ := ih hy
      exact ⟨x, List.mem_cons_of_mem _ hx, hR⟩

/-- The row that is written is there as the statement found it: an unused pairing, a connector that is not revoked, no connector with
the id. -/
def Fits (d : Rows) : Write → Prop
  | .usePairing scope id _ => ∃ p ∈ d.pairings, unusedPairing scope id p = true
  | .rotateConnector scope id _ _ => ∃ c ∈ d.connectors, rotatable scope id c = true
  | .createConnector c => ∀ c' ∈ d.connectors, c'.id ≠ c.id
  | _ => False

/-- A pairing and what has become of it: it may have been used. -/
def Aged (p₀ p : ConnectorPairing) : Prop := { p with usedAt := p₀.usedAt } = p₀ ∧ (p₀.usedAt.isSome → p.usedAt.isSome)

/-- The pairings are those there were, and connectors have ids of their own. -/
structure Kept (d₀ d : Rows) : Prop where
  pairings : List.Forall₂ Aged d₀.pairings d.pairings
  ids : (d.connectors.map (·.id)).Nodup

section Writes

variable {d₀ d : Rows} {p : ConnectorPairing}

theorem Kept.original (h : Kept d₀ d) (hp : p ∈ d.pairings) : ∃ p₀ ∈ d₀.pairings, Aged p₀ p := exists_of_forall₂ h.pairings hp

theorem unusedPairing_iff {scope : Scope} {id : String} :
    unusedPairing scope id p = true ↔ sees scope p.tenantId = true ∧ p.id = id ∧ p.usedAt = none := by
  simp [unusedPairing, and_assoc]

theorem rotatable_iff {scope : Scope} {id : String} {c : Connector} :
    rotatable scope id c = true ↔ sees scope c.tenantId = true ∧ c.id = id ∧ c.status ≠ .REVOKED := by
  simp [rotatable, and_assoc]

theorem mem_updateWhere {α : Type} {sel : α → Bool} {f : α → α} {rows : List α} {y : α} :
    y ∈ updateWhere sel f rows ↔ ∃ x ∈ rows, (if sel x then f x else x) = y := List.mem_map

/-- Rows that match another condition are not touched by an update, and the others do not match it either way. -/
theorem exists_updateWhere {α : Type} {sel sel' : α → Bool} {f : α → α} {rows : List α}
    (hf : ∀ x, sel x = true → sel' x = false ∧ sel' (f x) = false) :
    (∃ x ∈ updateWhere sel f rows, sel' x = true) ↔ ∃ x ∈ rows, sel' x = true := by
  constructor
  · intro h
    obtain ⟨y, hy, hsel⟩ := h
    obtain ⟨x, hx, rfl⟩ := mem_updateWhere.1 hy
    split_ifs at hsel with hs
    · rw [(hf x hs).2] at hsel
      cases hsel
    · exact ⟨x, hx, hsel⟩
  · intro h
    obtain ⟨x, hx, hsel⟩ := h
    refine ⟨x, mem_updateWhere.2 ⟨x, hx, if_neg fun hs => ?_⟩, hsel⟩
    rw [(hf x hs).1] at hsel
    cases hsel

theorem map_id_updateWhere {sel : Connector → Bool} {f : Connector → Connector} (hf : ∀ c, (f c).id = c.id) (rows : List Connector) :
    (updateWhere sel f rows).map (·.id) = rows.map (·.id) := by
  rw [updateWhere, List.map_map]
  refine List.map_congr_left fun c _ => ?_
  simp only [Function.comp_apply]
  split_ifs
  · exact hf c
  · rfl

theorem rotate_ids (scope : Scope) (id hash : String) (version : Option String) :
    (applyWrite d (.rotateConnector scope id hash version)).connectors.map (·.id) = d.connectors.map (·.id) := by
  simp only [applyWrite]
  refine map_id_updateWhere ?_ d.connectors
  intro c
  rfl

theorem Aged.use {p₀ : ConnectorPairing} (h : Aged p₀ p) (t : ℤ) : Aged p₀ { p with usedAt := some t } := ⟨h.1, fun _ => rfl⟩

theorem keeps_write (d : Rows) (w : Write) (h : Kept d₀ d) (hw : Fits d w) : Kept d₀ (applyWrite d w) := by
  cases w with
  | usePairing scope id t =>
    refine ⟨?_, h.ids⟩
    simp only [applyWrite, updateWhere]
    refine List.forall₂_map_right_iff.2 (h.pairings.imp fun p₀ p hp => ?_)
    split_ifs
    · exact hp.use t
    · exact hp
  | rotateConnector scope id hash version =>
    refine ⟨h.pairings, ?_⟩
    rw [rotate_ids]
    exact h.ids
  | createConnector c =>
    refine ⟨h.pairings, ?_⟩
    simp only [applyWrite, List.map_append, List.map_cons, List.map_nil]
    refine h.ids.append (List.nodup_singleton _) fun id hid hnew => ?_
    obtain ⟨c', hc', rfl⟩ := List.mem_map.1 hid
    exact hw c' hc' (List.mem_singleton.1 hnew)
  | _ => exact False.elim hw

theorem fits_indep (d : Rows) (w w' : Write) (hw' : Fits d w') (hclash : sameRow w w' = false) :
    Fits (applyWrite d w') w ↔ Fits d w := by
  cases w' with
  | usePairing scope' id' t' =>
    cases w with
    | usePairing scope id t =>
      have hne : ¬ id = id' := of_decide_eq_false hclash
      refine exists_updateWhere fun p hp => ?_
      have hp' := (unusedPairing_iff.1 hp).2.1
      have hid : p.id ≠ id := fun he => hne (he.symm.trans hp')
      simp [unusedPairing, hid]
    | _ => exact Iff.rfl
  | rotateConnector scope' id' hash' version' =>
    cases w with
    | rotateConnector scope id hash version =>
      have hne : ¬ id = id' := of_decide_eq_false hclash
      refine exists_updateWhere fun c hc => ?_
      have hc' := (rotatable_iff.1 hc).2.1
      have hid : c.id ≠ id := fun he => hne (he.symm.trans hc')
      simp [rotatable, hid]
    | createConnector c =>
      have hmem : ∀ rows : List Connector, (∀ c' ∈ rows, c'.id ≠ c.id) ↔ c.id ∉ rows.map (·.id) := by
        intro rows
        simp only [List.mem_map, not_exists, not_and]
      simp only [Fits]
      rw [hmem, hmem, rotate_ids]
    | _ => exact Iff.rfl
  | createConnector c' =>
    cases w with
    | rotateConnector scope id hash version =>
      have hne : ¬ id = c'.id := of_decide_eq_false hclash
      have hnot : ¬ rotatable scope id c' = true := fun h => hne (rotatable_iff.1 h).2.1.symm
      simp [Fits, applyWrite, or_and_right, exists_or, hnot]
    | createConnector c =>
      have hne : ¬ c.id = c'.id := of_decide_eq_false hclash
      simp only [Fits, applyWrite, List.mem_append, List.mem_singleton]
      constructor
      · exact fun h c'' hc'' => h c'' (Or.inl hc'')
      · intro h c'' hc''
        rcases hc'' with hc'' | hc''
        · exact h c'' hc''
        · rw [hc'']
          exact fun he => hne he.symm
    | _ => exact Iff.rfl
  | _ => exact False.elim hw'

theorem sameRow_symm (w w' : Write) : sameRow w w' = sameRow w' w := by
  cases w <;> cases w' <;> simp [sameRow, eq_comm]

theorem pairing_rules (d₀ : Rows) : Rules applyWrite sameRow (Kept d₀) Fits where
  symm := sameRow_symm
  keeps := keeps_write
  indep d w w' _ hw' hclash := fits_indep d w w' hw' hclash

end Writes

/-! Calls. -/

/-- A write that gives a connector the token with the hash. -/
def Gives (connectorId tokenHash : String) : Write → Prop
  | .rotateConnector _ id hash _ => id = connectorId ∧ hash = tokenHash
  | .createConnector c => c.id = connectorId ∧ c.tokenHash = tokenHash
  | _ => False

/-- What the transaction of a call has written when it returns: a token is that of the call, given with a pairing that was unused and
not expired at the scan; and where there is none, no connector was written. -/
def Redeems (env : Env) (d₀ : Rows) (c : RedeemCall) (js : List Write) : Redeemed → Prop
  | none => ∀ w ∈ js, ∃ scope id t, w = .usePairing scope id t
  | some (connectorId, token) =>
    token = c.fresh.token ∧ ∃ p ∈ d₀.pairings, p.usedAt = none ∧ c.scanAt < p.expiresAt ∧ env.verifyTokenHash c.code p.codeHash = true ∧
      ∃ scope w, js = [.usePairing scope p.id c.fresh.now, w] ∧ Gives connectorId c.fresh.tokenHash w

section Calls

variable {env : Env} {d₀ : Rows} {c : RedeemCall} {scope : Scope} {multiTenant : Bool} {p full : ConnectorPairing}

theorem updateMany_some {n : ℕ} {w : Write} {ws : List Write} {r : Reply} (h : updateMany n w = some (ws, r)) :
    r = .count n ∧ ((n = 0 ∧ ws = []) ∨ (n ≠ 0 ∧ ws = [w])) := by
  simp only [updateMany, Option.some.injEq, Prod.mk.injEq] at h
  refine ⟨h.2.symm, ?_⟩
  by_cases hn : n = 0
  · exact Or.inl ⟨hn, by rw [← h.1, if_pos hn]⟩
  · exact Or.inr ⟨hn, by rw [← h.1, if_neg hn]⟩

theorem exists_of_countP {α : Type} {sel : α → Bool} {rows : List α} (h : rows.countP sel ≠ 0) : ∃ x ∈ rows, sel x = true :=
  List.countP_pos_iff.1 (Nat.pos_of_ne_zero h)

theorem sound_thrown {js : List Write} (hjs : ∀ w ∈ js, ∃ scope id t, w = Write.usePairing scope id t) (e : Err) :
    Sound sameRow (Kept d₀) Fits (Redeems env d₀ c) js
      (if multiTenant ∧ (e = .PAIRING_ALREADY_USED ∨ e = .CONNECTOR_GONE) then (.ret none : Prog Rows Write Reply Err Redeemed)
        else .throw e) := by
  split_ifs
  · exact hjs
  · exact trivial

theorem sound_pairConnector (hp : p ∈ d₀.pairings) (hunused : p.usedAt = none) (hlive : c.scanAt < p.expiresAt)
    (hcode : env.verifyTokenHash c.code p.codeHash = true) :
    Sound sameRow (Kept d₀) Fits (Redeems env d₀ c) [.usePairing scope p.id c.fresh.now]
      (attempt (fun connectorId => .ret (some (connectorId, c.fresh.token)))
        (fun e => if multiTenant ∧ (e = .PAIRING_ALREADY_USED ∨ e = .CONNECTOR_GONE) then .ret none else .throw e)
        (pairConnector env scope c.fresh full c.info)) := by
  have hused : ∀ w ∈ [Write.usePairing scope p.id c.fresh.now], ∃ scope id t, w = Write.usePairing scope id t :=
    fun w hw => ⟨scope, p.id, c.fresh.now, List.mem_singleton.1 hw⟩
  unfold pairConnector
  split
  · rename_i connectorId _
    intro d _ ws r hq
    simp only [rotateConnector] at hq
    split_ifs at hq
    obtain ⟨rfl, ⟨hn, rfl⟩ | ⟨hn, rfl⟩⟩ := updateMany_some hq
    · refine ⟨List.forall_mem_nil _, by simp, ?_⟩
      simp only [List.append_nil, hn]
      exact sound_thrown hused _
    · refine ⟨fun w hw => ?_, by simp [sameRow], ?_⟩
      · rw [List.mem_singleton.1 hw]
        exact exists_of_countP hn
      · simp only [if_neg hn]
        exact ⟨rfl, p, hp, hunused, hlive, hcode, scope, _, rfl, rfl, rfl⟩
  · intro d _ ws r hq
    simp only [createConnector] at hq
    split_ifs at hq with hany
    simp only [Option.some.injEq, Prod.mk.injEq] at hq
    obtain ⟨rfl, rfl⟩ := hq
    refine ⟨fun w hw => ?_, by simp [sameRow], ?_⟩
    · rw [List.mem_singleton.1 hw]
      intro c' hc' he
      refine hany (List.any_eq_true.2 ⟨c', hc', ?_⟩)
      rw [decide_eq_true he, Bool.true_or]
    · exact ⟨rfl, p, hp, hunused, hlive, hcode, scope, _, rfl, rfl, rfl⟩

theorem sound_finishRedeemIn (hid : full.id = p.id) (hp : p ∈ d₀.pairings) (hunused : p.usedAt = none) (hlive : c.scanAt < p.expiresAt)
    (hcode : env.verifyTokenHash c.code p.codeHash = true) :
    Sound sameRow (Kept d₀) Fits (Redeems env d₀ c) [] (finishRedeemIn env multiTenant scope c.fresh full c.info) := by
  intro d _ ws r hq
  rw [hid] at hq
  obtain ⟨rfl, ⟨hn, rfl⟩ | ⟨hn, rfl⟩⟩ := updateMany_some hq
  · refine ⟨nofun, by simp, ?_⟩
    simp only [hn]
    exact sound_thrown (fun w hw => absurd hw List.not_mem_nil) _
  · refine ⟨fun w hw => ?_, by simp, ?_⟩
    · rw [List.mem_singleton.1 hw]
      exact exists_of_countP hn
    · simp only [if_neg hn]
      exact sound_pairConnector hp hunused hlive hcode

theorem sound_redeemTx (hp : p ∈ d₀.pairings) (hunused : p.usedAt = none) (hlive : c.scanAt < p.expiresAt)
    (hcode : env.verifyTokenHash c.code p.codeHash = true) {scanned : ConnectorPairing} (hid : scanned.id = p.id) :
    Sound sameRow (Kept d₀) Fits (Redeems env d₀ c) [] (redeemTx env multiTenant c scanned) := by
  unfold redeemTx
  split_ifs
  · intro d _ ws r hq
    simp only [findPairing, Option.some.injEq, Prod.mk.injEq] at hq
    obtain ⟨rfl, rfl⟩ := hq
    refine ⟨nofun, by simp, ?_⟩
    cases hfind : d.pairings.find? fun q => sees (some scanned.tenantId) q.tenantId && q.id = scanned.id with
    | none => exact fun w hw => absurd hw List.not_mem_nil
    | some full =>
      have hfull := List.find?_some hfind
      simp only [Bool.and_eq_true, decide_eq_true_eq] at hfull
      dsimp only
      split_ifs
      · exact fun w hw => absurd hw List.not_mem_nil
      · exact sound_finishRedeemIn (hfull.2.trans hid) hp hunused hlive hcode
  · exact sound_finishRedeemIn hid hp hunused hlive hcode

theorem scan_original {d : Rows} (hd : Kept d₀ d) (h : scanPairings env c.code c.scanAt d = some p) :
    ∃ p₀ ∈ d₀.pairings, p.id = p₀.id ∧ p₀.usedAt = none ∧ c.scanAt < p₀.expiresAt ∧ env.verifyTokenHash c.code p₀.codeHash = true := by
  have hp := List.find?_some h
  simp only [Bool.and_eq_true, decide_eq_true_eq, Option.isNone_iff_eq_none] at hp
  obtain ⟨p₀, hp₀, heq, haged⟩ := hd.original (List.mem_of_find?_eq_some h)
  refine ⟨p₀, hp₀, ?_, ?_, ?_, ?_⟩
  · rw [← heq]
  · by_contra hne
    have hsome := haged (Option.isSome_iff_ne_none.2 hne)
    rw [hp.1.1] at hsome
    cases hsome
  · rw [← heq]
    exact hp.1.2
  · rw [← heq]
    exact hp.2

theorem sound_redeemCall : CallSound sameRow (Kept d₀) Fits (Redeems env d₀ c) [] (redeemCall env multiTenant c) := by
  refine ⟨rfl, fun d hd => ?_⟩
  dsimp only
  split
  · exact trivial
  · rename_i p hscan
    obtain ⟨p₀, hp₀, hid, hunused, hlive, hcode⟩ := scan_original hd hscan
    exact sound_redeemTx hp₀ hunused hlive hcode hid

end Calls

/-! What is committed, one write after the other. -/

/-- No pairing with the id is unused. -/
def Used (id : String) (d : Rows) : Prop := ∀ p ∈ d.pairings, p.id = id → p.usedAt.isSome

section Replay

variable {d₀ d : Rows} {id : String} {w : Write} {ws : List Write}

theorem aged_ids {ps₀ ps : List ConnectorPairing} (h : List.Forall₂ Aged ps₀ ps) : ps.map (·.id) = ps₀.map (·.id) := by
  induction h with
  | nil => rfl
  | cons hp _ ih => rw [List.map_cons, List.map_cons, ih, ← hp.1]

theorem used_write (h : Used id d) (hw : Fits d w) : Used id (applyWrite d w) := by
  cases w with
  | usePairing scope id' t =>
    intro p hp hid
    obtain ⟨q, hq, rfl⟩ := mem_updateWhere.1 hp
    split_ifs at hid ⊢
    · rfl
    · exact h q hq hid
  | rotateConnector scope id' hash version => exact h
  | createConnector c => exact h
  | _ => exact False.elim hw

theorem used_of_use {scope : Scope} {t : ℤ} (hids : (d.pairings.map (·.id)).Nodup) (hw : Fits d (.usePairing scope id t)) :
    Used id (applyWrite d (.usePairing scope id t)) := by
  intro p hp hid
  obtain ⟨q, hq, rfl⟩ := mem_updateWhere.1 hp
  obtain ⟨found, hfound, hunused⟩ := hw
  split_ifs at hid ⊢ with hsel
  · rfl
  · have heq : q = found := List.inj_on_of_nodup_map hids hq hfound (hid.trans (unusedPairing_iff.1 hunused).2.1.symm)
    exact absurd (heq ▸ hunused) hsel

theorem not_used_again (h : Used id d) (hws : Meets applyWrite Fits d ws) : ∀ w ∈ ws, pairingOf w ≠ some id := by
  induction ws generalizing d with
  | nil => exact fun w hw => absurd hw List.not_mem_nil
  | cons w ws ih =>
    intro w' hw'
    rcases List.mem_cons.1 hw' with rfl | hw'
    · intro hp
      cases w' with
      | usePairing scope id' t =>
        obtain ⟨p, hp', hunused⟩ := hws.1
        obtain ⟨-, hid, hnone⟩ := unusedPairing_iff.1 hunused
        have hsome := h p hp' (hid.trans (Option.some.inj hp))
        rw [hnone] at hsome
        cases hsome
      | _ => cases hp
    · exact ih (used_write h hws.1) hws.2 w' hw'

theorem use_once (hids : (d₀.pairings.map (·.id)).Nodup) (hd : Kept d₀ d) (hws : Meets applyWrite Fits d ws) :
    ws.countP (fun w => pairingOf w = some id) ≤ 1 := by
  induction ws generalizing d with
  | nil => exact Nat.zero_le 1
  | cons w ws ih =>
    by_cases hw : pairingOf w = some id
    · have hused : Used id (applyWrite d w) := by
        cases w with
        | usePairing scope id' t =>
          obtain rfl : id' = id := Option.some.inj hw
          exact used_of_use (aged_ids hd.pairings ▸ hids) hws.1
        | _ => cases hw
      have hnone : ws.countP (fun w => pairingOf w = some id) = 0 :=
        List.countP_eq_zero.2 fun w' hw' => by simpa using not_used_again hused hws.2 w' hw'
      rw [List.countP_cons_of_pos (by simpa using hw), hnone]
    · rw [List.countP_cons_of_neg (by simpa using hw)]
      exact ih (keeps_write d w hd hws.1) hws.2

theorem countP_issued_le (log : List (Commit Write Redeemed)) :
    (log.filterMap issueOf).countP (fun x => x.pairing = some id) ≤ (log.flatMap Commit.writes).countP fun w => pairingOf w = some id := by
  induction log with
  | nil => exact Nat.zero_le 0
  | cons c log ih =>
    rw [List.flatMap_cons, List.countP_append]
    cases hissue : issueOf c with
    | none =>
      rw [List.filterMap_cons_none hissue]
      omega
    | some x =>
      rw [List.filterMap_cons_some hissue, List.countP_cons]
      split_ifs with hx
      · have hpos : 0 < c.writes.countP fun w => pairingOf w = some id := by
          obtain ⟨v, -, rfl⟩ := Option.map_eq_some_iff.1 hissue
          obtain ⟨w, hw, hp⟩ := List.exists_of_findSome?_eq_some (of_decide_eq_true hx)
          exact List.countP_pos_iff.2 ⟨w, hw, by simpa using hp⟩
        omega
      · omega

end Replay

/-! The token of a connector. -/

section Tokens

variable {env : Env} {d₀ d : Rows} {calls : ℕ → RedeemCall}

theorem connectors_of_uses {js : List Write} (hjs : ∀ w ∈ js, ∃ scope id t, w = Write.usePairing scope id t) (d : Rows) :
    (js.foldl applyWrite d).connectors = d.connectors := by
  induction js generalizing d with
  | nil => rfl
  | cons w js ih =>
    obtain ⟨scope, id, t, rfl⟩ := hjs w List.mem_cons_self
    exact ih (fun w' hw' => hjs w' (List.mem_cons_of_mem _ hw')) _

/-- After the write the connector has the hash, and the others are as they were. -/
theorem gives_write {w : Write} {connectorId hash : String} (hw : Gives connectorId hash w) (hids : (d.connectors.map (·.id)).Nodup)
    (hfits : Fits d w) {c : Connector} (hc : c ∈ (applyWrite d w).connectors) :
    (c.id = connectorId ∧ c.tokenHash = hash) ∨ (c.id ≠ connectorId ∧ c ∈ d.connectors) := by
  cases w with
  | rotateConnector scope id tokenHash version =>
    obtain ⟨rfl, rfl⟩ := hw
    obtain ⟨x, hx, rfl⟩ := mem_updateWhere.1 hc
    obtain ⟨found, hfound, hrot⟩ := hfits
    split_ifs with hsel
    · exact Or.inl ⟨(rotatable_iff.1 hsel).2.1, rfl⟩
    · refine Or.inr ⟨fun hid => ?_, hx⟩
      have heq : x = found := List.inj_on_of_nodup_map hids hx hfound (hid.trans (rotatable_iff.1 hrot).2.1.symm)
      exact hsel (heq ▸ hrot)
  | createConnector new =>
    obtain ⟨rfl, rfl⟩ := hw
    rcases List.mem_append.1 hc with hc | hc
    · exact Or.inr ⟨hfits c hc, hc⟩
    · rw [List.mem_singleton.1 hc]
      exact Or.inl ⟨rfl, rfl⟩
  | _ => exact False.elim hw

/-- The hash of a connector is that of the token that was issued last, or the one it had. -/
def HashOf (d₀ : Rows) (calls : ℕ → RedeemCall) (c : Connector) : Option Issue → Prop
  | some x => x.token = (calls x.call).fresh.token ∧ c.tokenHash = (calls x.call).fresh.tokenHash
  | none => ∃ c₀ ∈ d₀.connectors, c₀.id = c.id ∧ c₀.tokenHash = c.tokenHash

theorem hash_of_last (log : List (Commit Write Redeemed)) (hids : (d₀.connectors.map (·.id)).Nodup)
    (hvalues : ∀ k ∈ log, Redeems env d₀ (calls k.call) k.writes k.value)
    (hlog : Meets applyWrite Fits d₀ (log.flatMap Commit.writes)) :
    ∀ c ∈ ((log.flatMap Commit.writes).foldl applyWrite d₀).connectors,
      HashOf d₀ calls c ((log.filterMap issueOf).reverse.find? fun x => x.connectorId = c.id) := by
  induction log using List.reverseRecOn with
  | nil => exact fun c hc => ⟨c, hc, rfl, rfl⟩
  | append_singleton log k ih =>
    rw [List.flatMap_append, List.flatMap_singleton] at hlog ⊢
    obtain ⟨hbefore, hk⟩ := meets_append.1 hlog
    have hprev := ih (fun k' hk' => hvalues k' (List.mem_append_left _ hk')) hbefore
    have hkept : Kept d₀ ((log.flatMap Commit.writes).foldl applyWrite d₀) :=
      invariant keeps_write ⟨List.forall₂_same.2 fun p _ => ⟨rfl, id⟩, hids⟩ hbefore
    have hvalue := hvalues k (List.mem_append_right _ (List.mem_singleton_self k))
    rw [List.foldl_append]
    generalize (log.flatMap Commit.writes).foldl applyWrite d₀ = d at hk hprev hkept
    intro c hc
    cases hv : k.value with
    | none =>
      rw [hv] at hvalue
      rw [connectors_of_uses hvalue] at hc
      have hnone : issueOf k = none := by rw [issueOf, hv, Option.map_none]
      simpa [List.filterMap_append, hnone] using hprev c hc
    | some v =>
      obtain ⟨connectorId, token⟩ := v
      rw [hv] at hvalue
      obtain ⟨htoken, p, -, -, -, -, scope, w, hwrites, hgives⟩ := hvalue
      rw [hwrites] at hk hc
      have hsome : issueOf k = some ⟨k.call, k.writes.findSome? pairingOf, connectorId, token⟩ := by rw [issueOf, hv, Option.map_some]
      rw [List.filterMap_append, List.filterMap_cons_some hsome, List.filterMap_nil, List.reverse_append, List.reverse_singleton,
        List.singleton_append, List.find?_cons]
      rcases gives_write (d := applyWrite d (.usePairing scope p.id _)) hgives hkept.ids hk.2.1 hc with ⟨hid, hhash⟩ | ⟨hid, hold⟩
      · rw [hid, decide_eq_true rfl]
        exact ⟨htoken, hhash⟩
      · rw [decide_eq_false fun he => hid he.symm]
        exact hprev c hold

theorem validate_some {multiTenant : Bool} {scanned checked : Rows} {token connectorId : String}
    (h : validateConnectorToken env multiTenant scanned checked token = some connectorId) :
    ∃ c ∈ scanned.connectors, c.id = connectorId ∧ env.verifyTokenHash token c.tokenHash = true := by
  unfold validateConnectorToken at h
  split_ifs at h
  · cases hfind : scanned.connectors.find? fun c => env.verifyTokenHash token c.tokenHash with
    | none =>
      rw [hfind] at h
      cases h
    | some c =>
      rw [hfind] at h
      dsimp only at h
      split at h
      · cases h
      · split_ifs at h
        have hsel := List.find?_some hfind
        exact ⟨c, List.mem_of_find?_eq_some hfind, Option.some.inj h, hsel⟩
  · obtain ⟨c, hfind, hid⟩ := Option.map_eq_some_iff.1 h
    have hsel := List.find?_some hfind
    rw [Bool.and_eq_true] at hsel
    exact ⟨c, List.mem_of_find?_eq_some hfind, hid, hsel.2⟩

end Tokens

/-- In every interleaving of calls, lost connections among them, a pairing yields at most one token; once it is used it yields none any
more, and a call yields one only for a pairing that was not used, nor expired when it scanned; and a token that validates for a
connector is the one that was issued for it last, or where none was, one that it had before. -/
theorem pairing_yields_one_token (env : Env) (multiTenant : Bool) (d : Rows) (hpairings : (d.pairings.map (·.id)).Nodup)
    (hconnectors : (d.connectors.map (·.id)).Nodup) (calls : ℕ → RedeemCall)
    (hverify : ∀ i token, env.verifyTokenHash token (calls i).fresh.tokenHash = true → token = (calls i).fresh.token)
    (events more : List Event) :
    let s := redeeming env multiTenant d calls events
    (∀ id, (issued s).countP (fun x => x.pairing = some id) ≤ 1) ∧
      (∀ p ∈ s.db.pairings, p.usedAt.isSome →
        (issued (redeeming env multiTenant d calls (events ++ more))).filter (fun x => x.pairing = some p.id) =
          (issued s).filter fun x => x.pairing = some p.id) ∧
      (∀ x ∈ issued s, ∃ p ∈ d.pairings, x.pairing = some p.id ∧ p.usedAt = none ∧ (calls x.call).scanAt < p.expiresAt ∧
        env.verifyTokenHash (calls x.call).code p.codeHash = true) ∧
      ∀ checked token connectorId, validateConnectorToken env multiTenant s.db checked token = some connectorId →
        match lastIssued s connectorId with
        | some x => token = x.token
        | none => ∃ c ∈ d.connectors, c.id = connectorId ∧ env.verifyTokenHash token c.tokenHash = true := by
  intro s
  have hkept : Kept d d := ⟨List.forall₂_same.2 fun p _ => ⟨rfl, id⟩, hconnectors⟩
  have hsane : ∀ es, Sane applyWrite sameRow (Kept d) Fits (fun i => Redeems env d (calls i)) d (redeeming env multiTenant d calls es) :=
    run_sane (pairing_rules d) hkept fun i => sound_redeemCall
  have h := hsane events
  refine ⟨fun id => (countP_issued_le _).trans (use_once hpairings hkept h.replay), ?_, ?_, ?_⟩
  · intro p hp hused
    obtain ⟨later, hlater⟩ := log_run applyWrite sameRow s more
    have hlog : (redeeming env multiTenant d calls (events ++ more)).log = s.log ++ later := by
      rw [redeeming, run_append]
      exact hlater.symm
    have hreplay := (hsane (events ++ more)).replay
    rw [hlog, List.flatMap_append, meets_append, ← h.db_eq] at hreplay
    have hids : (s.db.pairings.map (·.id)).Nodup := aged_ids h.inv.pairings ▸ hpairings
    have hall : Used p.id s.db := fun q hq hid => (List.inj_on_of_nodup_map hids hq hp hid) ▸ hused
    have hnone : (later.filterMap issueOf).countP (fun x => x.pairing = some p.id) = 0 := by
      refine Nat.le_zero.1 ((countP_issued_le later).trans (List.countP_eq_zero.2 fun w hw => ?_).le)
      simpa using not_used_again hall hreplay.2 w hw
    rw [issued, hlog, List.filterMap_append, List.filter_append, List.filter_eq_nil_iff.2 (List.countP_eq_zero.1 hnone), List.append_nil]
    rfl
  · intro x hx
    obtain ⟨k, hk, hissue⟩ := List.mem_filterMap.1 hx
    have hvalue := h.values k hk
    obtain ⟨v, hv, rfl⟩ := Option.map_eq_some_iff.1 hissue
    rw [hv] at hvalue
    obtain ⟨-, p, hp, hunused, hlive, hcode, scope, w, hwrites, -⟩ := hvalue
    exact ⟨p, hp, by rw [hwrites]; rfl, hunused, hlive, hcode⟩
  · intro checked token connectorId hvalid
    obtain ⟨c, hc, rfl, hv⟩ := validate_some hvalid
    rw [h.db_eq] at hc
    have hhash := hash_of_last s.log hconnectors h.values h.replay c hc
    unfold lastIssued issued
    cases hlast : (s.log.filterMap issueOf).reverse.find? fun x => x.connectorId = c.id with
    | none =>
      rw [hlast] at hhash
      obtain ⟨c₀, hc₀, hid, heq⟩ := hhash
      exact ⟨c₀, hc₀, hid, heq ▸ hv⟩
    | some x =>
      rw [hlast] at hhash
      exact (hverify x.call token (hhash.2 ▸ hv)).trans hhash.1.symm

/-- A connector and a pairing to give it a new token. -/
def repaired : Rows where
  pairings := [⟨"p", "default", "code", "office", some "c", 100, none⟩]
  connectors := [⟨"c", "default", "office", "old", .ONLINE, none⟩]
  users := []
  passkeys := []
  invites := []

/-- Calls with the same code, each with a token of its own. -/
def sameCode (i : ℕ) : RedeemCall := ⟨"code", ⟨none, none⟩, 0, 0, ⟨toString i, toString i, "", 0⟩⟩

/-- Both calls find the pairing. The second one waits for the first, and then finds it used. -/
def bothScan : List Event := [.step 0, .step 1, .step 0, .step 1, .step 0, .step 0, .step 1, .step 1]

theorem pairing_yields_one_token_two_calls :
    let s := redeeming clearTextEnv false repaired sameCode bothScan
    issued s = [⟨0, some "p", "c", "0"⟩] ∧ validateConnectorToken clearTextEnv false s.db s.db "0" = some "c" ∧
      ∀ token, validateConnectorToken clearTextEnv false s.db s.db token = some "c" → token = "0" := by
  intro s
  have hissued : issued s = [⟨0, some "p", "c", "0"⟩] := by decide +kernel
  have h := pairing_yields_one_token clearTextEnv false repaired (by decide) (by decide) sameCode
    (fun i token ht => of_decide_eq_true ht) bothScan []
  refine ⟨hissued, by decide +kernel, fun token hvalid => ?_⟩
  have hlast : lastIssued s "c" = some ⟨0, some "p", "c", "0"⟩ := by
    rw [lastIssued, hissued]
    decide
  have htoken := h.2.2.2 s.db token "c" hvalid
  rw [hlast] at htoken
  exact htoken

end Captivo.Enroll
