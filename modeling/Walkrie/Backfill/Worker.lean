import Walkrie.Backfill.Util
import Walkrie.Sink.Plan

/-!
# Rehydrating a claimed row

The worker turns a claimed row back into an insert event and hands it to the
sinks, so that the sinks treat it like any other insert.
-/

namespace Walkrie
namespace Backfill

/-- A field of the stored object as a column of a tuple. -/
def toColumn (field : Sigma fun _ : String => Option String) : ColumnValue :=
  match field.2 with
  | none => { name := field.1, isNull := true }
  | some value => { name := field.1, textValue := value }

/-- The tuple a stored object is read back as. -/
def decoded (row : ClaimedRow) : DecodedRow :=
  { tableName := row.sourceTable
    kind := .insert
    columns := row.rowData.entries.map toColumn }

/-- `to_change_event`. -/
def toChangeEvent (row : ClaimedRow) : ChangeEvent :=
  { op := .insert
    tableName := row.sourceTable
    newRow := some (decoded row) }

/-- Text of a stored column, empty when it is null or missing. -/
def columnText (rowData : RowData) (name : String) : String :=
  (rowData.lookup name).join.getD ""

/-- Reading a rehydrated tuple is reading the stored object. -/
@[simp]
theorem getColumn_decoded
    (row : ClaimedRow)
    (name : String) :
    (decoded row).getColumn name = columnText row.rowData name := by
  unfold decoded DecodedRow.getColumn DecodedRow.column? columnText
    AList.lookup
  simp only
  induction row.rowData.entries with
  | nil => rfl
  | cons field fields inductionHypothesis =>
      obtain ⟨other, value⟩ := field
      have named : (toColumn ⟨other, value⟩).name = other := by
        cases value <;> rfl
      by_cases same : name = other
      · subst same
        rw [List.map_cons, List.find?_cons_of_pos (by simp [named]),
          List.dlookup_cons_eq]
        cases value <;> simp [toColumn]
      · rw [List.map_cons,
          List.find?_cons_of_neg (by simp [named, Ne.symm same]),
          List.dlookup_cons_ne _ _ same]
        exact inductionHypothesis

/-- The upsert the sink prepares for a claimed row, unless id or text is
empty. -/
theorem prepareUpsert_toChangeEvent
    (tm : TableMapping)
    (row : ClaimedRow) :
    Sink.prepareUpsert tm (toChangeEvent row) =
      if columnText row.rowData tm.idSource = "" ∨
          columnText row.rowData tm.embedSource = "" then none
      else
        some
          { kind := .upsert
            tm
            idVal := columnText row.rowData tm.idSource
            embedVal := columnText row.rowData tm.embedSource
            metaVals :=
              tm.metadataSources.map (columnText row.rowData) } := by
  have read : (decoded row).getColumn = columnText row.rowData :=
    funext (getColumn_decoded row)
  simp [toChangeEvent, Sink.prepareUpsert, read]

theorem planEvent_toChangeEvent
    {mappings : List TableMapping}
    {row : ClaimedRow}
    {tm : TableMapping}
    (found : findMapping mappings row.sourceTable = some tm) :
    Sink.planEvent mappings (toChangeEvent row) =
      if columnText row.rowData tm.idSource = "" ∨
          columnText row.rowData tm.embedSource = "" then none
      else
        some
          { kind := .upsert
            tm
            idVal := columnText row.rowData tm.idSource
            embedVal := columnText row.rowData tm.embedSource
            metaVals :=
              tm.metadataSources.map (columnText row.rowData) } := by
  have mapped : mappings.find? (fun tm => tm.sourceTable =
      (toChangeEvent row).tableName) = some tm := found
  rw [Sink.planEvent_eq_prepareUpsert mapped (.inl rfl),
    prepareUpsert_toChangeEvent]

end Backfill
end Walkrie
