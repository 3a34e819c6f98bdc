import CaptivoAccess.Proofs.RecSearch
import CaptivoAccess.Spec.SearchCost

/-! How many chunks a search decrypts. The budget counts the chunks that are looked at; every
stream that the search gets to has been decrypted as a whole by then. -/

namespace Captivo.Search

open Lib.Utf8 Captivo.RecStore Captivo.Proxy
open Captivo.RecFetch (Text)

variable {rt : Runtime} {st : Store} {tenantID : Bytes} {query needle : Text}

theorem searchKeysCounted_fst (budget : ℕ) (keys : List Bytes) :
    (searchKeysCounted rt st tenantID query needle budget keys).1 = searchKeys rt st tenantID query needle budget keys := by
  induction keys generalizing budget with
  | nil =>
    rw [searchKeysCounted, searchKeys]
  | cons key keys ih =>
    cases budget with
    | zero => rw [searchKeysCounted, searchKeys]
    | succ budget =>
      rw [searchKeysCounted, searchKeys]
      cases st.keys tenantID key with
      | error e => exact ih (budget + 1)
      | ok chunks =>
        simp only
        cases searchChunks rt query needle key (budget + 1) chunks with
        | none => rfl
        | some scan =>
          simp only
          rw [ih]

theorem searchStoreCounted_fst (req : RecSearchRequest) : (searchStoreCounted rt st req).1 = searchStore rt st req := by
  rw [searchStoreCounted, searchStore]
  split_ifs with hneedle hmax
  · rfl
  · rw [searchKeysCounted_fst, budgetOf, if_pos hmax]
  · rw [searchKeysCounted_fst, budgetOf, if_neg hmax]

/-! The chunks that are looked at. -/

variable (rt query needle)

/-- The chunks of a stream up to the first with a hit, or all of them; none if the search panics on the way. -/
def scanned (key : Bytes) : List (ℤ × Bytes) → Option ℕ
  | [] => some 0
  | (seq, data) :: chunks =>
    match rt.unmarshal data with
    | none => (scanned key chunks).map (· + 1)
    | some evs =>
      match searchEvents rt query needle key seq evs with
      | none => none
      | some (some _) => some 1
      | some none => (scanned key chunks).map (· + 1)

variable {rt query needle}

theorem scanned_cons (key : Bytes) (c : ℤ × Bytes) (chunks : List (ℤ × Bytes)) :
    scanned rt query needle key (c :: chunks) = (searchChunk rt query needle key c).bind fun
      | some _ => some 1
      | none => (scanned rt query needle key chunks).map (· + 1) := by
  obtain ⟨seq, data⟩ := c
  rw [scanned, searchChunk]
  cases rt.unmarshal data with
  | none => rfl
  | some evs =>
    simp only
    rcases searchEvents rt query needle key seq evs with _ | _ | m <;> rfl

/-- They are taken off the budget. A stream that makes the search panic uses it up at the latest then. -/
theorem searchChunks_budget (key : Bytes) (budget : ℕ) (chunks : List (ℤ × Bytes)) :
    (∀ n, scanned rt query needle key chunks = some n →
      ∃ scan, searchChunks rt query needle key budget chunks = some scan ∧ scan.budget = budget - n) ∧
    (scanned rt query needle key chunks = none →
      ∀ scan, searchChunks rt query needle key budget chunks = some scan → scan.budget = 0) := by
  induction chunks generalizing budget with
  | nil =>
    refine ⟨fun n hn => ⟨⟨none, budget, false⟩, by rw [searchChunks], ?_⟩, fun h => by cases h⟩
    rw [← Option.some.inj hn]
    rfl
  | cons c chunks ih =>
    cases budget with
    | zero =>
      refine ⟨fun n _ => ⟨⟨none, 0, true⟩, by rw [searchChunks], (Nat.zero_sub n).symm⟩, fun _ scan hscan => ?_⟩
      rw [searchChunks, Option.some.injEq] at hscan
      rw [← hscan]
    | succ budget =>
      obtain ⟨hsome, hnone⟩ := ih budget
      rw [scanned_cons, searchChunks_cons]
      rcases searchChunk rt query needle key c with _ | _ | m
      · exact ⟨fun n hn => (by cases hn), fun _ scan hscan => (by cases hscan)⟩
      · refine ⟨fun n hn => ?_, fun hn => hnone (Option.map_eq_none_iff.1 hn)⟩
        obtain ⟨m, hm, rfl⟩ := Option.map_eq_some_iff.1 hn
        obtain ⟨scan, hscan, hleft⟩ := hsome m hm
        exact ⟨scan, hscan, by omega⟩
      · refine ⟨fun n hn => ⟨⟨some m, budget, false⟩, rfl, ?_⟩, fun h => by cases h⟩
        rw [← Option.some.inj hn]
        rfl

variable (rt st tenantID query needle)

/-- What a recording takes off a budget. -/
def used (budget : ℕ) (key : Bytes) : ℕ :=
  match st.keys tenantID key with
  | .error _ => 0
  | .ok chunks => (scanned rt query needle key chunks).getD budget

/-- The chunks in the streams that a search gets to: those with less than the budget used in front of them. -/
def chunksReached (budget left : ℕ) (keys : List Bytes) : ℕ :=
  ((List.range keys.length).map fun i =>
    if ((keys.take i).map (used rt st tenantID query needle budget)).sum < left then st.opened tenantID (keys.getD i []) else 0).sum

variable {rt st tenantID query needle}

theorem chunksReached_zero (budget : ℕ) (keys : List Bytes) : chunksReached rt st tenantID query needle budget 0 keys = 0 := by
  simp [chunksReached]

theorem chunksReached_cons {budget left : ℕ} (hleft : 0 < left) (key : Bytes) (keys : List Bytes) :
    chunksReached rt st tenantID query needle budget left (key :: keys) =
      st.opened tenantID key +
        chunksReached rt st tenantID query needle budget (left - used rt st tenantID query needle budget key) keys := by
  have hlater : ∀ n, used rt st tenantID query needle budget key + n < left ↔
      n < left - used rt st tenantID query needle budget key := by
    intro n
    omega
  simp only [chunksReached, List.length_cons, List.range_succ_eq_map, List.map_cons, List.map_map, List.sum_cons, List.take_zero,
    List.map_nil, List.sum_nil, if_pos hleft, Function.comp_def, List.take_succ_cons, hlater, List.getD_cons_zero, List.getD_cons_succ]

theorem searchKeysCounted_snd {budget left : ℕ} (hleft : left ≤ budget) (keys : List Bytes) :
    (searchKeysCounted rt st tenantID query needle left keys).2 = chunksReached rt st tenantID query needle budget left keys := by
  induction keys generalizing left with
  | nil =>
    rw [searchKeysCounted]
    rfl
  | cons key keys ih =>
    cases left with
    | zero => rw [searchKeysCounted, chunksReached_zero]
    | succ left =>
      rw [searchKeysCounted, chunksReached_cons (Nat.succ_pos left), used]
      cases st.keys tenantID key with
      | error e => exact congrArg (st.opened tenantID key + ·) (ih hleft)
      | ok chunks =>
        obtain ⟨hsome, hnone⟩ := @searchChunks_budget rt query needle key (left + 1) chunks
        simp only
        cases hscanned : scanned rt query needle key chunks with
        | some n =>
          obtain ⟨scan, hscan, hbudget⟩ := hsome n hscanned
          rw [hscan]
          simp only [hbudget, Option.getD_some]
          rw [ih (by omega)]
        | none =>
          rw [Option.getD_none, Nat.sub_eq_zero_of_le hleft, chunksReached_zero]
          cases hscan : searchChunks rt query needle key (left + 1) chunks with
          | none => rfl
          | some scan =>
            simp only [hnone hscanned scan hscan]
            rw [ih (Nat.zero_le budget), chunksReached_zero]

/-- For every store, every list of recordings and every budget: a search decrypts as many chunks as the streams have that it gets to,
so that it keeps within the budget if and only if they have no more chunks together. -/
theorem decrypts_within_budget_iff (rt : Runtime) (st : Store) (req : RecSearchRequest) :
    (searchStoreCounted rt st req).1 = searchStore rt st req ∧
      (((searchStoreCounted rt st req).2 : ℤ) ≤ req.maxDecrypt ↔
        (if rt.uni.toLower (trimSpace req.query) = [] then 0
          else (chunksReached rt st req.tenantID req.query (rt.uni.toLower (trimSpace req.query)) (budgetOf req) (budgetOf req)
            req.recordingKeys : ℤ)) ≤ req.maxDecrypt) := by
  refine ⟨searchStoreCounted_fst req, ?_⟩
  rw [searchStoreCounted]
  split_ifs
  · rfl
  · rw [searchKeysCounted_snd le_rfl]

/-- A keystroke stream of three chunks. -/
def threeChunks : Store where
  openChunk := some
  root := []
  tree := [0, 1, 2].foldl (fun t seq => (append some 0 [] t ⟨[116], [107], ascii "keys"⟩ seq [1]).1) (Lib.FileTree.Tree.empty 0)

/-- All of them are decrypted for a search that may decrypt one. -/
theorem budget_of_one_overrun :
    (searchStoreCounted typedRuntime threeChunks ⟨[116], "ls".toList, [[107]], 1⟩).2 = 3 ∧
      searchStore typedRuntime threeChunks ⟨[116], "ls".toList, [[107]], 1⟩ =
        some ⟨[⟨[107], 0, encodeText "sudo LS".toList⟩], false⟩ := by
  decide +kernel

end Captivo.Search
