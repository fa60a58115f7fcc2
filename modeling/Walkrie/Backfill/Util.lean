import Walkrie.Event
import Walkrie.Backfill.Store

/-!
# Staging and absorbing rows

`BackfillUtil` fills the store from the source table before streaming starts,
and afterwards decides for each live event whether it is merged into a staged
row or dispatched.
-/

namespace Walkrie

/-- What a tuple says about a column: nothing when the column is missing or
unchanged-toast, otherwise its value, `none` for null. -/
def DecodedRow.known? (row : DecodedRow) (name : String) :
    Option (Option String) :=
  match row.column? name with
  | none => none
  | some column =>
      if column.isUnchangedToast then none
      else some (if column.isNull then none else some column.textValue)

/-- A column that reads as a non-empty text is known. -/
theorem DecodedRow.known?_of_getColumn
    {row : DecodedRow}
    {name : String}
    (filled : row.getColumn name ≠ "") :
    row.known? name = some (some (row.getColumn name)) := by
  unfold DecodedRow.getColumn at filled ⊢
  unfold DecodedRow.known?
  cases found : row.column? name with
  | none => simp [found] at filled
  | some column =>
      simp only [found] at filled ⊢
      by_cases blank : column.isNull || column.isUnchangedToast
      · simp [blank] at filled
      · simp only [Bool.or_eq_true, not_or, Bool.not_eq_true] at blank
        simp [blank.1, blank.2]

/-- What a tuple says about a column is what is read from it. -/
theorem DecodedRow.getColumn_of_known?
    {row : DecodedRow}
    {name : String}
    {value : Option String}
    (known : row.known? name = some value) :
    row.getColumn name = value.getD "" := by
  unfold DecodedRow.known? at known
  unfold DecodedRow.getColumn
  cases found : row.column? name with
  | none => simp [found] at known
  | some column =>
      simp only [found] at known ⊢
      by_cases toast : column.isUnchangedToast
      · simp [toast] at known
      · simp only [toast, Bool.false_eq_true, if_false, Option.some_inj] at known
        rw [← known]
        cases column.isNull <;> simp [toast]

/-- A toast column is unknown. -/
theorem DecodedRow.known?_of_isToast
    {row : DecodedRow}
    {name : String}
    (toast : row.isToast name = true) :
    row.known? name = none := by
  unfold DecodedRow.isToast at toast
  unfold DecodedRow.known?
  cases found : row.column? name with
  | none => rfl
  | some column =>
      simp only [found] at toast
      simp [toast]

namespace Backfill

/-- `find_mapping`. -/
def findMapping (mappings : List TableMapping) (sourceTable : String) :
    Option TableMapping :=
  mappings.find? fun tm => tm.sourceTable = sourceTable

theorem findMapping_sourceTable
    {mappings : List TableMapping}
    {sourceTable : String}
    {tm : TableMapping}
    (found : findMapping mappings sourceTable = some tm) :
    tm.sourceTable = sourceTable := by
  simpa using List.find?_some found

/-- Columns read by the dump and written by a merge. -/
def selectColumns (tm : TableMapping) : List String :=
  tm.idSource :: tm.embedSource :: tm.metadataSources

/-! ## Objects that can be written

Whether `dump()` of the JSON library writes an object or throws is a parameter
`writes` of the definitions that call it. -/

/-- All names and texts of the object are UTF-8. -/
def RowData.IsUtf8 (data : RowData) : Prop :=
  ∀ name value, data.lookup name = some value →
    ValidUtf8 name ∧ ∀ text ∈ value, ValidUtf8 text

/-- `dump()` throws exactly when it meets a string that is not UTF-8. -/
def DumpsUtf8 (writes : RowData → Bool) : Prop :=
  ∀ data, writes data = true ↔ data.IsUtf8

/-! ## Merging a live tuple -/

/-- `set_json_column`. -/
def setJsonColumn (row : DecodedRow) (json : RowData) (name : String) :
    RowData :=
  match row.known? name with
  | none => json
  | some value => Table.upsert json name value

/-- `merge_known_columns`. -/
def mergeKnownColumns (merged : RowData) (row : DecodedRow)
    (tm : TableMapping) : RowData :=
  (selectColumns tm).foldl (setJsonColumn row) merged

@[simp]
theorem lookup_setJsonColumn
    (row : DecodedRow)
    (json : RowData)
    (name other : String) :
    (setJsonColumn row json name).lookup other =
      if other = name then (row.known? name).or (json.lookup name)
      else json.lookup other := by
  unfold setJsonColumn
  cases row.known? name with
  | none =>
      by_cases same : other = name
      · subst same
        simp
      · simp [same]
  | some value => simp

/-- A merge overwrites the mapped columns the tuple knows and keeps the
others. -/
theorem lookup_mergeKnownColumns
    (merged : RowData)
    (row : DecodedRow)
    (tm : TableMapping)
    (name : String) :
    (mergeKnownColumns merged row tm).lookup name =
      if name ∈ selectColumns tm then (row.known? name).or (merged.lookup name)
      else merged.lookup name := by
  unfold mergeKnownColumns
  generalize selectColumns tm = columns
  induction columns generalizing merged with
  | nil => simp
  | cons column columns inductionHypothesis =>
      rw [List.foldl_cons, inductionHypothesis, lookup_setJsonColumn]
      by_cases same : name = column
      · subst same
        simp only [if_true, List.mem_cons, true_or]
        cases row.known? name <;> simp
      · simp [same]

/-! ## The dump -/

/-- One turn of the loop over the fields of a result row. -/
def dumpField (tm : TableMapping) (dumped : String × RowData)
    (field : String × Option String) : String × RowData :=
  match field.2 with
  | none => (dumped.1, Table.upsert dumped.2 field.1 none)
  | some value =>
      (if field.1 = tm.idSource then value else dumped.1,
        Table.upsert dumped.2 field.1 (some value))

/-- Row id and JSON object of a result row, given its fields in the order of
the selected columns. -/
def dumpRow (tm : TableMapping) (fields : List (Option String)) :
    String × RowData :=
  ((selectColumns tm).zip fields).foldl (dumpField tm) ("", ∅)

/-- One turn of the loop over the result rows of a table, for an object that
can be written. -/
def stageRow (tm : TableMapping) (store : BackfillStore)
    (fields : List (Option String)) : BackfillStore :=
  let (rowId, rowJson) := dumpRow tm fields
  if rowId = "" then store else store.insertRow tm.sourceTable rowId rowJson

/-- One turn of the loop over the result rows of a table.  The exception of
`dump()` is `none`. -/
def stageRow? (writes : RowData → Bool) (tm : TableMapping)
    (store : BackfillStore) (fields : List (Option String)) :
    Option BackfillStore :=
  let (rowId, rowJson) := dumpRow tm fields
  if rowId = "" then some store
  else if writes rowJson then
    some (store.insertRow tm.sourceTable rowId rowJson)
  else none

theorem stageRow?_eq
    (writes : RowData → Bool)
    (tm : TableMapping)
    (store : BackfillStore)
    (fields : List (Option String)) :
    stageRow? writes tm store fields =
      if (dumpRow tm fields).1 = "" ∨ writes (dumpRow tm fields).2 = true then
        some (stageRow tm store fields)
      else none := by
  unfold stageRow? stageRow
  by_cases blank : (dumpRow tm fields).1 = "" <;> simp [blank]

/-- A row of a source table: the value of each column, `none` for null. -/
abbrev SourceRow := String → Option String

/-- The result row the dump's query returns for a source row. -/
def SourceRow.fields (tm : TableMapping) (row : SourceRow) :
    List (Option String) :=
  (selectColumns tm).map row

/-- A field that is not the id leaves the row id as it was. -/
theorem dumpField_rowId
    (tm : TableMapping)
    (dumped : String × RowData)
    (name : String)
    (value : Option String) :
    (dumpField tm dumped (name, value)).1 =
      if name = tm.idSource then value.getD dumped.1 else dumped.1 := by
  cases value <;> simp [dumpField]

theorem lookup_dumpField
    (tm : TableMapping)
    (dumped : String × RowData)
    (name other : String)
    (value : Option String) :
    (dumpField tm dumped (name, value)).2.lookup other =
      if other = name then some value else dumped.2.lookup other := by
  cases value <;> simp [dumpField]

/-- What has been dumped of a source row after any number of columns. -/
theorem foldl_dumpField
    (tm : TableMapping)
    (row : SourceRow)
    (columns : List String)
    (dumped : String × RowData) :
    let result := (columns.zip (columns.map row)).foldl (dumpField tm) dumped
    (result.1 = if tm.idSource ∈ columns then (row tm.idSource).getD dumped.1
      else dumped.1) ∧
    ∀ name, result.2.lookup name =
      if name ∈ columns then some (row name) else dumped.2.lookup name := by
  induction columns generalizing dumped with
  | nil => simp
  | cons column columns inductionHypothesis =>
      obtain ⟨rowId, json⟩ :=
        inductionHypothesis (dumpField tm dumped (column, row column))
      simp only [List.map_cons, List.zip_cons_cons, List.foldl_cons]
      constructor
      · rw [rowId, dumpField_rowId]
        by_cases same : column = tm.idSource
        · subst same
          cases row tm.idSource <;> simp
        · simp [same, Ne.symm same]
      · intro name
        rw [json, lookup_dumpField]
        by_cases same : name = column
        · subst same
          simp
        · simp [same]

/-- A dumped row carries its id and the value of every selected column. -/
theorem dumpRow_fields
    (tm : TableMapping)
    (row : SourceRow) :
    (dumpRow tm (row.fields tm)).1 = (row tm.idSource).getD "" ∧
      ∀ name ∈ selectColumns tm,
        (dumpRow tm (row.fields tm)).2.lookup name = some (row name) := by
  obtain ⟨rowId, json⟩ := foldl_dumpField tm row (selectColumns tm) ("", ∅)
  constructor
  · exact rowId.trans (if_pos (by simp [selectColumns]))
  · intro name selected
    exact (json name).trans (if_pos selected)

/-! ## Absorbing live events -/

/-- What the first store statement of `absorb_event` concerns. -/
inductive Absorption
  /-- Nothing in the store: the event is dispatched. -/
  | unrelated
  /-- The row a delete removes. -/
  | removes (tm : TableMapping) (rowId : String)
  /-- The row an update may be merged into. -/
  | merges (tm : TableMapping) (rowId : String) (newRow : DecodedRow)
  deriving DecidableEq

/-- `absorb_event` up to its first store statement. -/
def absorption (mappings : List TableMapping) (event : ChangeEvent) :
    Absorption :=
  if event.op ≠ .update ∧ event.op ≠ .delete then .unrelated
  else
    match findMapping mappings event.tableName with
    | none => .unrelated
    | some tm =>
        if event.op = .delete then
          match event.oldRow with
          | none => .unrelated
          | some oldRow =>
              let rowId := oldRow.getColumn tm.idSource
              if rowId = "" then .unrelated else .removes tm rowId
        else
          match event.newRow with
          | none => .unrelated
          | some newRow =>
              let rowId := newRow.getColumn tm.idSource
              if rowId = "" then .unrelated else .merges tm rowId newRow

/-- `absorb_event` for an object that can be written: the store afterwards,
and whether the event is kept from the sinks. -/
def absorbEvent (mappings : List TableMapping) (store : BackfillStore)
    (event : ChangeEvent) : BackfillStore × Bool :=
  match absorption mappings event with
  | .unrelated => (store, false)
  | .removes tm rowId => (store.markDone tm.sourceTable rowId, false)
  | .merges tm rowId newRow =>
      match store.getRowData tm.sourceTable rowId with
      | none => (store, false)
      | some existing =>
          let merged := mergeKnownColumns existing newRow tm
          ((store.updateRowData tm.sourceTable rowId merged).1, true)

/-- `absorb_event`.  The exception of `dump()` is `none`. -/
def absorbEvent? (writes : RowData → Bool) (mappings : List TableMapping)
    (store : BackfillStore) (event : ChangeEvent) :
    Option (BackfillStore × Bool) :=
  match absorption mappings event with
  | .unrelated => some (store, false)
  | .removes tm rowId => some (store.markDone tm.sourceTable rowId, false)
  | .merges tm rowId newRow =>
      match store.getRowData tm.sourceTable rowId with
      | none => some (store, false)
      | some existing =>
          let merged := mergeKnownColumns existing newRow tm
          if writes merged then
            some ((store.updateRowData tm.sourceTable rowId merged).1, true)
          else none

/-- The object an event is merged into. -/
def merged? (mappings : List TableMapping) (store : BackfillStore)
    (event : ChangeEvent) : Option RowData :=
  match absorption mappings event with
  | .unrelated => none
  | .removes _ _ => none
  | .merges tm rowId newRow =>
      (store.getRowData tm.sourceTable rowId).map fun existing =>
        mergeKnownColumns existing newRow tm

/-- An event is absorbed unless its merge gives an object that cannot be
written. -/
theorem absorbEvent?_eq
    (writes : RowData → Bool)
    (mappings : List TableMapping)
    (store : BackfillStore)
    (event : ChangeEvent) :
    absorbEvent? writes mappings store event =
      if (merged? mappings store event).all writes then
        some (absorbEvent mappings store event)
      else none := by
  unfold absorbEvent? absorbEvent merged?
  cases absorption mappings event with
  | unrelated => rfl
  | removes tm rowId => rfl
  | merges tm rowId newRow =>
      simp only
      cases store.getRowData tm.sourceTable rowId with
      | none => rfl
      | some existing => rfl

end Backfill
end Walkrie
