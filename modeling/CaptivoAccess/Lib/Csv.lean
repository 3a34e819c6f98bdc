import Mathlib.Tactic
import Mathlib.Data.List.Forall2

/-! Files of comma-separated values (RFC 4180), over any alphabet with the four signs that the
format gives a meaning to. -/

namespace Lib.Csv

variable {α : Type} [DecidableEq α]

structure Signs (α : Type) where
  quote : α
  comma : α
  cr : α
  lf : α
  nodup : [quote, comma, cr, lf].Nodup

/-- Where the reader stands in a field. -/
inductive Place where
  | start
  | plain
  | quoted
  /-- Behind a quote in a quoted field, which may end it. -/
  | closing
  /-- Between the two signs of a line break. -/
  | broken
  deriving DecidableEq

structure Reader (α : Type) where
  records : List (List (List α))
  record : List (List α)
  field : List α
  place : Place

variable (signs : Signs α)

def Reader.nextField (r : Reader α) : Reader α := ⟨r.records, r.record ++ [r.field], [], .start⟩

def Reader.nextRecord (r : Reader α) : Reader α := ⟨r.records ++ [r.record ++ [r.field]], [], [], .start⟩

def Reader.push (r : Reader α) (x : α) (place : Place) : Reader α := { r with field := r.field ++ [x], place := place }

/-- A sign behind a field. -/
def Reader.leave (r : Reader α) (x : α) : Option (Reader α) :=
  if x = signs.comma then some r.nextField
  else if x = signs.cr then some { r with place := .broken }
  else none

def Reader.step (r : Reader α) (x : α) : Option (Reader α) :=
  match r.place with
  | .start =>
    if x = signs.quote then some { r with place := .quoted }
    else if x = signs.comma ∨ x = signs.cr then r.leave signs x
    else if x = signs.lf then none
    else some (r.push x .plain)
  | .plain =>
    if x = signs.comma ∨ x = signs.cr then r.leave signs x
    else if x = signs.quote ∨ x = signs.lf then none
    else some (r.push x .plain)
  | .quoted => if x = signs.quote then some { r with place := .closing } else some (r.push x .quoted)
  | .closing => if x = signs.quote then some (r.push x .quoted) else r.leave signs x
  | .broken => if x = signs.lf then some r.nextRecord else none

/-- At the end. A line break there ends the last record and begins none. -/
def Reader.finish (r : Reader α) : Option (List (List (List α))) :=
  match r.place with
  | .quoted | .broken => none
  | .start => some (if r.records ≠ [] ∧ r.record = [] then r.records else r.nextRecord.records)
  | .plain | .closing => some r.nextRecord.records

def Reader.run : Reader α → List α → Option (Reader α)
  | r, [] => some r
  | r, x :: text => (r.step signs x).bind fun r => r.run text

/-- The records of a file. -/
def read (text : List α) : Option (List (List (List α))) := (Reader.run signs ⟨[], [], [], .start⟩ text).bind Reader.finish

/-! Written fields. -/

/-- No sign with a meaning is in the field. -/
def Plain (field : List α) : Prop := ∀ x ∈ field, x ∉ [signs.quote, signs.comma, signs.cr, signs.lf]

/-- The field with its quotes doubled and a quote on each side. -/
def quoted (field : List α) : List α :=
  signs.quote :: (field.flatMap fun x => if x = signs.quote then [x, x] else [x]) ++ [signs.quote]

/-- The two ways to write a field. -/
inductive Written (field : List α) : List α → Prop where
  | plain (h : Plain signs field) : Written field field
  | quoted : Written field (quoted signs field)

/-- The reader is behind a field. -/
structure Behind (r : Reader α) (records : List (List (List α))) (record : List (List α)) (field : List α) : Prop where
  records_eq : r.records = records
  record_eq : r.record = record
  field_eq : r.field = field
  place : r.place = .start ∨ r.place = .plain ∨ r.place = .closing

variable {signs} {records : List (List (List α))} {record : List (List α)} {field : List α} {r : Reader α}

theorem Reader.run_append (r : Reader α) (xs ys : List α) : r.run signs (xs ++ ys) = (r.run signs xs).bind fun r => r.run signs ys := by
  induction xs generalizing r with
  | nil => rfl
  | cons x xs ih =>
    rw [List.cons_append, Reader.run, Reader.run, Option.bind_assoc]
    exact congrArg _ (funext ih)

omit [DecidableEq α] in
theorem not_signs {x : α} (h : x ∉ [signs.quote, signs.comma, signs.cr, signs.lf]) :
    x ≠ signs.quote ∧ x ≠ signs.comma ∧ x ≠ signs.cr ∧ x ≠ signs.lf := by
  simpa only [List.mem_cons, List.not_mem_nil, or_false, not_or] using h

theorem run_plain (h : Plain signs field) (before : List α) (place : Place) (hplace : place = .start ∨ place = .plain) :
    ∃ place', (place' = .start ∨ place' = .plain) ∧
      Reader.run signs ⟨records, record, before, place⟩ field = some ⟨records, record, before ++ field, place'⟩ := by
  induction field generalizing before place with
  | nil => exact ⟨place, hplace, by rw [List.append_nil]; rfl⟩
  | cons x field ih =>
    obtain ⟨hx, hfield⟩ := List.forall_mem_cons.1 h
    obtain ⟨hquote, hcomma, hcr, hlf⟩ := not_signs hx
    obtain ⟨place', hplace', hrun⟩ := ih hfield (before ++ [x]) .plain (Or.inr rfl)
    refine ⟨place', hplace', ?_⟩
    have hstep : Reader.step signs ⟨records, record, before, place⟩ x = some ⟨records, record, before ++ [x], .plain⟩ := by
      rcases hplace with rfl | rfl <;> simp [Reader.step, Reader.push, hquote, hcomma, hcr, hlf]
    rw [Reader.run, hstep]
    exact hrun.trans (by rw [List.append_assoc]; rfl)

theorem run_doubled (field before : List α) :
    Reader.run signs ⟨records, record, before, .quoted⟩ (field.flatMap fun x => if x = signs.quote then [x, x] else [x]) =
      some ⟨records, record, before ++ field, .quoted⟩ := by
  induction field generalizing before with
  | nil =>
    rw [List.append_nil]
    rfl
  | cons x field ih =>
    have hstep : Reader.run signs ⟨records, record, before, .quoted⟩ (if x = signs.quote then [x, x] else [x]) =
        some ⟨records, record, before ++ [x], .quoted⟩ := by
      split_ifs with hx <;> simp [Reader.run, Reader.step, Reader.push, hx]
    rw [List.flatMap_cons, Reader.run_append, hstep]
    exact (ih (before ++ [x])).trans (by rw [List.append_assoc]; rfl)

theorem Written.run {text : List α} (h : Written signs field text) :
    ∃ r, Reader.run signs ⟨records, record, [], .start⟩ text = some r ∧ Behind r records record field := by
  cases h with
  | plain h =>
    obtain ⟨place, hplace, hrun⟩ := @run_plain _ _ _ records record _ h [] .start (Or.inl rfl)
    exact ⟨_, hrun, rfl, rfl, rfl, hplace.imp_right Or.inl⟩
  | quoted =>
    have hopen : Reader.step signs ⟨records, record, [], .start⟩ signs.quote = some ⟨records, record, [], .quoted⟩ := by
      simp [Reader.step]
    have hclose : Reader.step signs ⟨records, record, field, .quoted⟩ signs.quote = some ⟨records, record, field, .closing⟩ := by
      simp [Reader.step]
    refine ⟨⟨records, record, field, .closing⟩, ?_, rfl, rfl, rfl, Or.inr (Or.inr rfl)⟩
    rw [Csv.quoted, List.cons_append, Reader.run, hopen, Option.bind_some, Reader.run_append, run_doubled field [], Option.bind_some,
      Reader.run, List.nil_append, hclose]
    rfl

omit [DecidableEq α] in
theorem comma_ne_quote (signs : Signs α) : signs.comma ≠ signs.quote := by
  have h := signs.nodup
  simp only [List.nodup_cons, List.mem_cons, not_or] at h
  exact Ne.symm h.1.1

omit [DecidableEq α] in
theorem cr_ne (signs : Signs α) : signs.cr ≠ signs.quote ∧ signs.cr ≠ signs.comma := by
  have h := signs.nodup
  simp only [List.nodup_cons, List.mem_cons, not_or] at h
  exact ⟨Ne.symm h.1.2.1, Ne.symm h.2.1.1⟩

theorem Behind.comma (h : Behind r records record field) : r.step signs signs.comma = some ⟨records, record ++ [field], [], .start⟩ := by
  obtain ⟨rfl, rfl, rfl, hplace⟩ := h
  rcases hplace with hplace | hplace | hplace <;>
    simp [Reader.step, Reader.leave, Reader.nextField, hplace, comma_ne_quote]

theorem Behind.lineBreak (h : Behind r records record field) :
    r.run signs [signs.cr, signs.lf] = some ⟨records ++ [record ++ [field]], [], [], .start⟩ := by
  obtain ⟨rfl, rfl, rfl, hplace⟩ := h
  obtain ⟨hquote, hcomma⟩ := cr_ne signs
  rcases hplace with hplace | hplace | hplace <;>
    simp [Reader.run, Reader.step, Reader.leave, Reader.nextRecord, hplace, hquote, hcomma]

omit [DecidableEq α] in
theorem Behind.finish (h : Behind r records record field) (hrecord : record ≠ []) : r.finish = some (records ++ [record ++ [field]]) := by
  obtain ⟨rfl, rfl, rfl, hplace⟩ := h
  rcases hplace with hplace | hplace | hplace <;> simp [Reader.finish, Reader.nextRecord, hplace, hrecord]

theorem run_record {fields texts : List (List α)} (h : List.Forall₂ (Written signs) fields texts) (hne : fields ≠ []) :
    ∃ r, Reader.run signs ⟨records, record, [], .start⟩ ([signs.comma].intercalate texts) = some r ∧
      Behind r records (record ++ fields.dropLast) (fields.getLast hne) := by
  induction h generalizing record with
  | nil => exact absurd rfl hne
  | @cons field text fields texts hfield hrest ih =>
    obtain ⟨r, hrun, hbehind⟩ := @Written.run _ _ _ records record _ _ hfield
    cases hrest with
    | nil => exact ⟨r, by simpa using hrun, by simpa using hbehind⟩
    | @cons field' text' fields texts hfield' hrest =>
      obtain ⟨r', hrun', hbehind'⟩ := @ih (record ++ [field]) (List.cons_ne_nil _ _)
      refine ⟨r', ?_, ?_⟩
      · rw [List.intercalate_cons_of_ne_nil (List.cons_ne_nil _ _), List.append_assoc, Reader.run_append, hrun, Option.bind_some,
          List.singleton_append, Reader.run, hbehind.comma]
        exact hrun'
      · simpa using hbehind'

theorem run_records {rows : List (List (List α))} {lines : List (List (List α))} (h : List.Forall₂ (List.Forall₂ (Written signs)) rows lines)
    (hlong : ∀ row ∈ rows, 2 ≤ row.length) (hne : rows ≠ []) :
    (Reader.run signs ⟨records, [], [], .start⟩ ([signs.cr, signs.lf].intercalate (lines.map [signs.comma].intercalate))).bind
      Reader.finish = some (records ++ rows) := by
  induction h generalizing records with
  | nil => exact absurd rfl hne
  | @cons row line rows lines hrow hrest ih =>
    obtain ⟨htwo, hlong⟩ := List.forall_mem_cons.1 hlong
    have hrow_ne : row ≠ [] := List.length_pos_iff.1 (by omega)
    obtain ⟨r, hrun, hbehind⟩ := @run_record _ _ _ records [] _ _ hrow hrow_ne
    rw [List.nil_append] at hbehind
    cases hrest with
    | nil =>
      have hrecord : row.dropLast ≠ [] := by
        rw [← List.length_pos_iff, List.length_dropLast]
        omega
      rw [List.map_cons, List.map_nil, List.intercalate_singleton, hrun, Option.bind_some, hbehind.finish hrecord,
        List.dropLast_append_getLast]
    | @cons row' line' rows lines hrow' hrest =>
      rw [List.map_cons, List.intercalate_cons_of_ne_nil (by simp), List.append_assoc, Reader.run_append, hrun, Option.bind_some,
        Reader.run_append, hbehind.lineBreak, Option.bind_some, List.dropLast_append_getLast]
      exact (ih hlong (List.cons_ne_nil _ _)).trans (by rw [List.append_assoc]; rfl)

/-- Records of two fields or more are read back, whichever way each field is written. -/
theorem read_written {rows : List (List (List α))} {lines : List (List (List α))} (h : List.Forall₂ (List.Forall₂ (Written signs)) rows lines)
    (hlong : ∀ row ∈ rows, 2 ≤ row.length) (hne : rows ≠ []) :
    read signs ([signs.cr, signs.lf].intercalate (lines.map [signs.comma].intercalate)) = some rows := by
  rw [read, run_records h hlong hne, List.nil_append]

end Lib.Csv
