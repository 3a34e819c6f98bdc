import CaptivoAccess.Lib.Csv
import CaptivoAccess.Spec.AuditExport

/-! What a reader of the exported audit log gets. -/

namespace Captivo.AuditExport

open Lib.JsonText Lib.Csv

def signs : Signs UInt16 := ⟨34, 44, 13, 10, by decide⟩

/-- A spreadsheet takes the text for a formula, or skips its first character and then may. -/
def FormulaTrigger (value : Units) : Prop := ∃ c ∈ units "=+-@\t\r", value.head? = some c

/-- What is in the file for a value. -/
def Exported (value field : Units) : Prop := (field = value ∧ ¬ FormulaTrigger value) ∨ (field = 39 :: value ∧ FormulaTrigger value)

theorem needsFormulaGuard_iff (value : Units) : needsFormulaGuard value = true ↔ FormulaTrigger value := by
  cases value with
  | nil => simp [needsFormulaGuard, FormulaTrigger]
  | cons c value => simp [needsFormulaGuard, FormulaTrigger]

theorem guarded_exported (value : Units) : Exported value (guarded value) := by
  unfold guarded
  split_ifs with h
  · exact Or.inr ⟨rfl, (needsFormulaGuard_iff value).1 h⟩
  · exact Or.inl ⟨rfl, mt (needsFormulaGuard_iff value).2 h⟩

theorem plain_of_not_needsQuotes {escaped : Units} (h : needsQuotes escaped = false) : Plain signs escaped := by
  intro c hc hsign
  have hnot := List.any_eq_false.1 h c hc
  rw [decide_eq_true_iff] at hnot
  exact hnot ((by decide : [signs.quote, signs.comma, signs.cr, signs.lf] ⊆ units "\",\n\r") hsign)

theorem csvEscape_written (value : Units) : Written signs (guarded value) (csvEscape value) := by
  simp only [csvEscape]
  split_ifs with h
  · exact .quoted
  · exact .plain (plain_of_not_needsQuotes (Bool.eq_false_of_not_eq_true h))

theorem header_written : List.Forall₂ (Written signs) CSV_HEADER CSV_HEADER := by
  refine List.forall₂_same.2 fun name hname => .plain ?_
  exact plain_of_not_needsQuotes (List.forall_iff_forall_mem.1 (by decide : CSV_HEADER.Forall fun name => needsQuotes name = false) name hname)

theorem fields_length (toISOString : ℤ → Units) (row : AuditRow) : (row.fields toISOString).length = 13 := rfl

def exportedRows (toISOString : ℤ → Units) (rows : List AuditRow) : List (List Units) :=
  rows.map fun row => (row.fields toISOString).map guarded

theorem rows_written (toISOString : ℤ → Units) (rows : List AuditRow) :
    List.Forall₂ (List.Forall₂ (Written signs)) (exportedRows toISOString rows)
      (rows.map fun row => (row.fields toISOString).map csvEscape) := by
  simp only [exportedRows, List.forall₂_map_left_iff, List.forall₂_map_right_iff, List.forall₂_same]
  exact fun row _ value _ => csvEscape_written value

/-- The file has the header and a record for each row, in order, whatever the texts of the rows are. -/
theorem read_toCsv (toISOString : ℤ → Units) (rows : List AuditRow) :
    ∃ records, read signs (toCsv toISOString rows) = some (CSV_HEADER :: records) ∧
      List.Forall₂ (fun row record => record.length = 13 ∧ List.Forall₂ Exported (AuditRow.fields toISOString row) record) rows records := by
  refine ⟨exportedRows toISOString rows, ?_, ?_⟩
  · have hlong : ∀ record ∈ CSV_HEADER :: exportedRows toISOString rows, 2 ≤ record.length := by
      refine List.forall_mem_cons.2 ⟨by decide, List.forall_mem_map.2 fun row _ => ?_⟩
      rw [List.length_map, fields_length]
      decide
    have hread := read_written (.cons header_written (rows_written toISOString rows)) hlong (List.cons_ne_nil _ _)
    rw [List.map_cons, List.map_map] at hread
    exact hread
  · refine List.forall₂_map_right_iff.2 (List.forall₂_same.2 fun row _ => ⟨?_, ?_⟩)
    · rw [List.length_map, fields_length]
    · exact List.forall₂_map_right_iff.2 (List.forall₂_same.2 fun value _ => guarded_exported value)

end Captivo.AuditExport
