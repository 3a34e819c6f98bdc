import CaptivoAccess.Proofs.RecSearch

/-! When the list of recordings says that a search was incomplete. A match in one
connector's answer takes every mark away, a spent budget hides the connectors that did not
answer, and a success that could not be read is taken for an answer. -/

namespace Captivo.Search

open Lib.Utf8 Captivo.RecStore
open Captivo.RecFetch (Text trim isSpace)

theorem mem_dropWhile_of_not {p : Char → Bool} {t : Text} {c : Char} (hc : c ∈ t) (hp : p c = false) : c ∈ t.dropWhile p := by
  induction t with
  | nil => exact hc
  | cons d t ih =>
    rw [List.dropWhile_cons]
    split_ifs with hd
    · rcases List.mem_cons.1 hc with rfl | hc
      · rw [hp] at hd
        cases hd
      · exact ih hc
    · exact hc

theorem mem_trim {t : Text} {c : Char} (hc : c ∈ t) (hp : isSpace c = false) : c ∈ trim t :=
  List.mem_reverse.2 (mem_dropWhile_of_not (List.mem_reverse.2 (mem_dropWhile_of_not hc hp)) hp)

theorem trim_eq_nil {t : Text} (h : ∀ c ∈ t, isSpace c = true) : trim t = [] := by
  rw [trim, List.dropWhile_eq_nil_iff.2 h]
  rfl

/-- A text that was trimmed and is not empty does not become empty by trimming it again. -/
theorem trim_trim_ne_nil {t : Text} (h : trim t ≠ []) : trim (trim t) ≠ [] := by
  have hc : ∃ c ∈ t, isSpace c = false := by
    by_contra hall
    push Not at hall
    exact h (trim_eq_nil fun c hc => by simpa using hall c hc)
  obtain ⟨c, hmem, hspace⟩ := hc
  exact List.ne_nil_of_mem (mem_trim (mem_trim hmem hspace) hspace)

/-- A command that is searched for has at least two characters, so the search does not find it blank. -/
theorem trim_command_ne_nil {filter : RecordingFilter} {cmd : Text} (h : filter.command = some cmd) : trim cmd ≠ [] := by
  rw [RecordingFilter.command, Option.filter_eq_some_iff] at h
  obtain ⟨hmap, hlen⟩ := h
  obtain ⟨raw, -, rfl⟩ := Option.map_eq_some_iff.1 hmap
  apply trim_trim_ne_nil
  intro hnil
  rw [hnil] at hlen
  exact absurd hlen (by decide)

section

variable (rt : Runtime) (net : Network) (tenantId : Bytes) (query : Text) (candidates : List SearchCandidate)

/-- The connector has answered with success, but its answer could not be read. -/
def Lost (id : Text) : Prop := net.delivery id = .cut ∧ outcome rt net tenantId query candidates id ≠ .failed

/-- A connector that was asked, and of which the manager has no answer. -/
def Unreachable (id : Text) : Prop :=
  (∃ c ∈ candidates, c.connector = some id) ∧
    (outcome rt net tenantId query candidates id = .failed ∨ Lost rt net tenantId query candidates id)

/-- A candidate that was not searched: it has no connector, or the connector has not answered. -/
def Unsearched (c : SearchCandidate) : Prop :=
  c.connector = none ∨ ∃ id, c.connector = some id ∧ Unreachable rt net tenantId query candidates id

/-- A candidate whose connector stopped at its budget. -/
def Stopped (c : SearchCandidate) : Prop :=
  ∃ id, c.connector = some id ∧ ∃ found, outcome rt net tenantId query candidates id = .ok found true

def Incomplete : Prop :=
  ∃ c ∈ candidates, Unsearched rt net tenantId query candidates c ∨ Stopped rt net tenantId query candidates c

end

/-- The answer says that it is incomplete, and names these connectors. -/
def RecordingList.Says (answer : RecordingList) (unreachable : Text → Prop) : Prop :=
  (answer.tooBroad = some true ∨ answer.isPartial = some true) ∧
    ∀ id, unreachable id → id ∈ answer.unreachableConnectors.getD []

variable {rt : Runtime} {net : Network} {tenantId : Bytes} {query : Text} {candidates : List SearchCandidate}

theorem reported_of_incomplete {fan : FanOutResult}
    (hpart : fan.isPartial = true ↔ ∃ c ∈ candidates, c.connector = none ∨
      ∃ id, c.connector = some id ∧ outcome rt net tenantId query candidates id = .failed)
    (htrunc : fan.truncated = true ↔ ∃ c ∈ candidates, ∃ id, c.connector = some id ∧
      ∃ found, outcome rt net tenantId query candidates id = .ok found true)
    (hlost : ∀ id, (∃ c ∈ candidates, c.connector = some id) → ¬ Lost rt net tenantId query candidates id)
    (h : Incomplete rt net tenantId query candidates) : fan.isPartial = true ∨ fan.truncated = true := by
  obtain ⟨c, hc, (hnone | ⟨id, hid, hasked, hfail | hl⟩) | ⟨id, hid, found, ho⟩⟩ := h
  · exact Or.inl (hpart.2 ⟨c, hc, Or.inl hnone⟩)
  · exact Or.inl (hpart.2 ⟨c, hc, Or.inr ⟨id, hid, hfail⟩⟩)
  · exact absurd hl (hlost id hasked)
  · exact Or.inr (htrunc.2 ⟨c, hc, id, hid, found, ho⟩)

/-- The list of a command search says what is incomplete exactly in these cases: nothing is, or there is no match,
no answer was lost, and no connector is unreachable while another stopped at its budget. -/
theorem list_says_incomplete_iff (rt : Runtime) (contains : Text → Text → Bool) (net : Network) (tenantId : Bytes)
    (found : Found) (filter : RecordingFilter) (cmd : Text) (hcmd : filter.command = some cmd)
    (candidates : List SearchCandidate)
    (hcand : candidates = candidatesOf (found.candidates.filter (buildRecordingWhere contains filter)) found.sites) :
    (Incomplete rt net tenantId (trim cmd) candidates →
      (listRecordings rt contains net tenantId found filter).Says (Unreachable rt net tenantId (trim cmd) candidates)) ↔
    (Incomplete rt net tenantId (trim cmd) candidates →
      (searchRecordingsOnConnectors rt net tenantId cmd candidates).matchedKeys = [] ∧
      (∀ id, (∃ c ∈ candidates, c.connector = some id) → ¬ Lost rt net tenantId (trim cmd) candidates id) ∧
      ((searchRecordingsOnConnectors rt net tenantId cmd candidates).truncated = true →
        ∀ id, ¬ Unreachable rt net tenantId (trim cmd) candidates id)) := by
  obtain ⟨fan, hfan, -, hpart, htrunc, hunr, -⟩ := fan_spec rt net tenantId candidates (trim_command_ne_nil hcmd)
  refine forall_congr' fun hinc => ?_
  have hne : found.candidates.filter (buildRecordingWhere contains filter) ≠ [] := by
    intro hnil
    obtain ⟨c, hc, -⟩ := hinc
    rw [hcand, hnil] at hc
    cases hc
  simp only [listRecordings, hcmd, hne, if_false, ← hcand, hfan]
  by_cases hm : fan.matchedKeys = []
  · by_cases ht : fan.truncated = true
    · -- the budget was spent: only `tooBroad` is set
      simp only [hm, ht, decide_true, Bool.and_self, if_true, RecordingList.Says, Option.getD_none, List.not_mem_nil,
        true_or, true_and, true_implies]
      refine ⟨fun h => ⟨fun id hasked hl => h id ⟨hasked, Or.inr hl⟩, h⟩, fun h => h.2⟩
    · simp only [hm, ht, decide_true, Bool.false_and, Bool.false_eq_true, if_false, if_true, RecordingList.Says,
        Option.getD_some, reduceCtorEq, false_or, Option.some.injEq, true_and, false_implies, and_true]
      constructor
      · rintro ⟨-, hlists⟩ id hasked hl
        exact hl.2 ((hunr id).1 (hlists id ⟨hasked, Or.inr hl⟩)).2
      · intro hlost
        refine ⟨(reported_of_incomplete hpart htrunc hlost hinc).resolve_right ht, fun id hun => (hunr id).2 ⟨hun.1, ?_⟩⟩
        exact hun.2.resolve_right (hlost id hun.1)
  · -- a match was found: the page carries no mark
    simp only [hm, decide_false, Bool.and_false, Bool.false_eq_true, if_false, RecordingList.Says, page, reduceCtorEq,
      or_self, false_and]

/-- Two recordings at two sites, and a filter for a command. -/
def typedRow (key : UInt8) (siteId : Text) : RecordingRow := ⟨[], [key], siteId, [], [], 0, 0, 1, 1, "guac".toList, none, false⟩

def typedFound : Found where
  candidates := [typedRow 107 "s".toList, typedRow 106 "z".toList]
  sites := [("s".toList, some "c".toList), ("z".toList, some "d".toList)]
  listed := [typedRow 107 "s".toList, typedRow 106 "z".toList]

def commandFilter : RecordingFilter := ⟨none, some "ls ".toList, none, none, none, none, 50, 0⟩

/-- The second connector does not answer. -/
def halfNetwork : Network := ⟨fun _ => typedStore, fun id => if id = "d".toList then .failed else .delivered⟩

theorem list_says_incomplete_iff_ls :
    (Incomplete typedRuntime halfNetwork [116] (trim "ls".toList) (candidatesOf typedFound.candidates typedFound.sites) →
      (listRecordings typedRuntime (fun _ _ => true) halfNetwork [116] typedFound commandFilter).Says
        (Unreachable typedRuntime halfNetwork [116] (trim "ls".toList) (candidatesOf typedFound.candidates typedFound.sites))) ↔
    (Incomplete typedRuntime halfNetwork [116] (trim "ls".toList) (candidatesOf typedFound.candidates typedFound.sites) →
      (searchRecordingsOnConnectors typedRuntime halfNetwork [116] "ls".toList
        (candidatesOf typedFound.candidates typedFound.sites)).matchedKeys = [] ∧
      (∀ id, (∃ c ∈ candidatesOf typedFound.candidates typedFound.sites, c.connector = some id) →
        ¬ Lost typedRuntime halfNetwork [116] (trim "ls".toList) (candidatesOf typedFound.candidates typedFound.sites) id) ∧
      ((searchRecordingsOnConnectors typedRuntime halfNetwork [116] "ls".toList
          (candidatesOf typedFound.candidates typedFound.sites)).truncated = true →
        ∀ id, ¬ Unreachable typedRuntime halfNetwork [116] (trim "ls".toList)
          (candidatesOf typedFound.candidates typedFound.sites) id)) :=
  list_says_incomplete_iff typedRuntime (fun _ _ => true) halfNetwork [116] typedFound commandFilter "ls".toList (by decide +kernel)
    (candidatesOf typedFound.candidates typedFound.sites) (by decide +kernel)

/-- The first connector has a match, the second does not answer: the list has one row and no mark. -/
theorem match_hides_unreachable :
    (∃ id, Unreachable typedRuntime halfNetwork [116] "ls".toList (candidatesOf typedFound.candidates typedFound.sites) id) ∧
      (listRecordings typedRuntime (fun _ _ => true) halfNetwork [116] typedFound commandFilter).rows = [typedRow 107 "s".toList] ∧
      (listRecordings typedRuntime (fun _ _ => true) halfNetwork [116] typedFound commandFilter).tooBroad = none ∧
      (listRecordings typedRuntime (fun _ _ => true) halfNetwork [116] typedFound commandFilter).isPartial = none ∧
      (listRecordings typedRuntime (fun _ _ => true) halfNetwork [116] typedFound commandFilter).unreachableConnectors = none := by
  refine ⟨⟨"d".toList, ⟨⟨[106], some "d".toList⟩, ?_, rfl⟩, Or.inl (by decide +kernel)⟩, ?_⟩
  · exact List.mem_cons_of_mem _ (List.mem_singleton_self _)
  · decide +kernel

end Captivo.Search
