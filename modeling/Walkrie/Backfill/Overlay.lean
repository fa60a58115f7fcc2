import Walkrie.Backfill.Fanout

/-!
# Updates of a staged row

A staged row passes through the object the dump writes, any number of merges
and the tuple the worker reads back.  What comes out is the dumped row with
each column overlaid by the last value an update has shown of it, so the sink
plans for it what it plans for an insert of that row.
-/

namespace Walkrie
namespace Backfill
namespace Overlay

open Sink Fanout

/-- A live update to the id. -/
def UpdatesTo (tm : TableMapping) (id : String) (event : ChangeEvent) : Prop :=
  event.op = .update ∧ event.tableName = tm.sourceTable ∧
    ∃ tuple, event.newRow = some tuple ∧ tuple.getColumn tm.idSource = id

/-- What an event says about a column. -/
def known? (name : String) (event : ChangeEvent) : Option (Option String) :=
  event.newRow.bind fun tuple => tuple.known? name

/-- The row with the last known value of each column. -/
def overlay (row : SourceRow) (events : List ChangeEvent) : SourceRow :=
  fun name => (events.filterMap (known? name)).getLastD
    (row name)

/-- The stored object after merging the tuples of some events. -/
def mergeAll (tm : TableMapping) (rowData : RowData)
    (events : List ChangeEvent) : RowData :=
  (events.filterMap ChangeEvent.newRow).foldl
    (fun merged tuple => mergeKnownColumns merged tuple tm) rowData

section Merges

variable {tm : TableMapping}
variable {id name : String}
variable {event : ChangeEvent}
variable {events : List ChangeEvent}
variable {mappings : List TableMapping}

/-! ## The stored object -/

/-- Each mapped column has the last value shown of it. -/
theorem lookup_mergeAll
    (rowData : RowData)
    (events : List ChangeEvent)
    (name : String) :
    (mergeAll tm rowData events).lookup name =
      if name ∈ selectColumns tm then
        ((events.filterMap (known? name)).getLast?).or
          (rowData.lookup name)
      else rowData.lookup name := by
  unfold mergeAll
  induction events generalizing rowData with
  | nil => simp
  | cons event events inductionHypothesis =>
      cases new : event.newRow with
      | none =>
          have unknown : known? name event = none := by simp [known?, new]
          rw [List.filterMap_cons_none new, List.filterMap_cons_none unknown]
          exact inductionHypothesis rowData
      | some tuple =>
          have shows : known? name event = tuple.known? name := by
            simp [known?, new]
          rw [List.filterMap_cons_some new, List.foldl_cons,
            inductionHypothesis, lookup_mergeKnownColumns]
          split
          · cases shown : tuple.known? name with
            | none =>
                rw [List.filterMap_cons_none (shows.trans shown),
                  Option.none_or]
            | some value =>
                rw [List.filterMap_cons_some (shows.trans shown),
                  List.getLast?_cons, Option.some_or, Option.some_or]
                cases (events.filterMap (known? name)).getLast? <;> rfl
          · rfl

/-- Merging again changes nothing. -/
theorem lookup_mergeAll_mergeAll
    (rowData : RowData)
    (events : List ChangeEvent)
    (name : String) :
    (mergeAll tm (mergeAll tm rowData events) events).lookup name =
      (mergeAll tm rowData events).lookup name := by
  simp only [lookup_mergeAll]
  split
  · cases (events.filterMap (known? name)).getLast? <;> rfl
  · rfl

/-- A merge writes to columns that are there. -/
theorem keys_mergeKnownColumns
    {rowData : RowData}
    (present : ∀ name ∈ selectColumns tm, name ∈ rowData)
    (tuple : DecodedRow) :
    (mergeKnownColumns rowData tuple tm).keys = rowData.keys := by
  unfold mergeKnownColumns
  generalize selectColumns tm = columns at present
  induction columns generalizing rowData with
  | nil => rfl
  | cons column columns inductionHypothesis =>
      rw [List.forall_mem_cons] at present
      have keys : (setJsonColumn tuple rowData column).keys = rowData.keys := by
        unfold setJsonColumn
        split
        · rfl
        · exact Table.keys_upsert present.1 _
      rw [List.foldl_cons, inductionHypothesis, keys]
      intro name member
      rw [AList.mem_keys, keys]
      exact present.2 name member

theorem keys_mergeAll
    {rowData : RowData}
    (present : ∀ name ∈ selectColumns tm, name ∈ rowData)
    (events : List ChangeEvent) :
    (mergeAll tm rowData events).keys = rowData.keys := by
  unfold mergeAll
  generalize events.filterMap ChangeEvent.newRow = tuples
  induction tuples generalizing rowData with
  | nil => rfl
  | cons tuple tuples inductionHypothesis =>
      have keys := keys_mergeKnownColumns present tuple
      rw [List.foldl_cons, inductionHypothesis, keys]
      intro name member
      rw [AList.mem_keys, keys]
      exact present name member

theorem mergeAll_mergeAll
    {rowData : RowData}
    (present : ∀ name ∈ selectColumns tm, name ∈ rowData)
    (events : List ChangeEvent) :
    mergeAll tm (mergeAll tm rowData events) events =
      mergeAll tm rowData events := by
  have keys := keys_mergeAll present events
  refine Table.ext_lookup ?_ (lookup_mergeAll_mergeAll rowData events)
  refine keys_mergeAll (fun name member => ?_) events
  rw [AList.mem_keys, keys]
  exact present name member

/-! ## The store -/

variable {store : BackfillStore}

/-- An update to a staged row is merged into it, and changes nothing else. -/
theorem absorbEvent_updatesTo
    (found : findMapping mappings tm.sourceTable = some tm)
    (nonempty : id ≠ "")
    (updates : UpdatesTo tm id event)
    {rowData : RowData}
    (existing : store.getRowData tm.sourceTable id = some rowData) :
    absorbEvent mappings store event =
      ((store.updateRowData tm.sourceTable id
        (mergeAll tm rowData [event])).1, true) := by
  obtain ⟨op, table, tuple, new, named⟩ := updates
  have about : Concerns tm id event := ⟨table, by simp [rowId, op, new, named]⟩
  have kind := absorption_of_update found nonempty about op new
  simp [absorbEvent, kind, existing, mergeAll, new]

/-- Writing the data of a row twice. -/
theorem updateRowData_updateRowData
    (sourceTable rowId : String)
    (rowData later : RowData) :
    ((store.updateRowData sourceTable rowId rowData).1.updateRowData
        sourceTable rowId later).1 =
      (store.updateRowData sourceTable rowId later).1 := by
  have rows : ((store.updateRowData sourceTable rowId rowData).1.updateRowData
      sourceTable rowId later).1.rows =
        (store.updateRowData sourceTable rowId later).1.rows := by
    refine Table.ext_lookup ?_ fun key => ?_
    · simp [BackfillStore.updateRowData]
    · simp only [BackfillStore.lookup_updateRowData]
      split
      · simp [Function.comp_def]
      · rfl
  exact congrArg (fun rows => { store with rows }) rows

/-- Writing the data a row has. -/
theorem updateRowData_self
    {sourceTable rowId : String}
    {rowData : RowData}
    (existing : store.getRowData sourceTable rowId = some rowData) :
    (store.updateRowData sourceTable rowId rowData).1 = store := by
  have rows : (store.updateRowData sourceTable rowId rowData).1.rows =
      store.rows := by
    refine Table.ext_lookup ?_ fun key => ?_
    · simp [BackfillStore.updateRowData]
    · rw [BackfillStore.lookup_updateRowData]
      split <;> rename_i same
      · obtain ⟨row, present, rfl⟩ := Option.map_eq_some_iff.mp existing
        rw [same, present]
        rfl
      · rfl
  exact congrArg (fun rows => { store with rows }) rows

theorem getRowData_updateRowData
    {sourceTable rowId : String}
    {rowData : RowData}
    (existing : store.getRowData sourceTable rowId = some rowData)
    (later : RowData) :
    (store.updateRowData sourceTable rowId later).1.getRowData sourceTable
      rowId = some later := by
  obtain ⟨row, present, _⟩ := Option.map_eq_some_iff.mp existing
  simp [BackfillStore.getRowData, present]

/-- All updates to a staged row are merged into it, one after the other. -/
theorem absorbAll_updatesTo
    (found : findMapping mappings tm.sourceTable = some tm)
    (nonempty : id ≠ "")
    (updates : ∀ event ∈ events, UpdatesTo tm id event)
    {rowData : RowData}
    (existing : store.getRowData tm.sourceTable id = some rowData) :
    absorbAll mappings store events =
      (store.updateRowData tm.sourceTable id
        (mergeAll tm rowData events)).1 := by
  induction events generalizing store rowData with
  | nil => exact (updateRowData_self existing).symm
  | cons event events inductionHypothesis =>
      rw [List.forall_mem_cons] at updates
      have absorbed := absorbEvent_updatesTo found nonempty updates.1 existing
      have rest := inductionHypothesis updates.2
        (getRowData_updateRowData existing (mergeAll tm rowData [event]))
      have merges : mergeAll tm (mergeAll tm rowData [event]) events =
          mergeAll tm rowData (event :: events) := by
        obtain ⟨_, _, tuple, new, _⟩ := updates.1
        simp [mergeAll, new]
      rw [absorbAll, List.foldl_cons, absorbed, ← absorbAll, rest,
        updateRowData_updateRowData, merges]

end Merges

/-- The dumped object has every mapped column. -/
theorem mem_dumpRow
    {tm : TableMapping}
    (row : SourceRow) :
    ∀ name ∈ selectColumns tm, name ∈ (dumpRow tm (row.fields tm)).2 := by
  intro name member
  rw [← AList.lookup_isSome, (dumpRow_fields tm row).2 name member]
  rfl

/-- The merged object reads like the overlaid row. -/
theorem columnText_mergeAll_dumpRow
    {tm : TableMapping}
    (row : SourceRow)
    (events : List ChangeEvent)
    {name : String}
    (member : name ∈ selectColumns tm) :
    columnText (mergeAll tm (dumpRow tm (row.fields tm)).2 events) name =
      (overlay row events name).getD "" := by
  rw [columnText, lookup_mergeAll, if_pos member,
    (dumpRow_fields tm row).2 name member, overlay, List.getLastD_eq_getLast?]
  cases (events.filterMap (known? name)).getLast? <;> rfl

/-- A staged row is planned like an insert of the dumped row with the last
known value of each column, and absorbing the updates a second time leaves the
store as it is. -/
theorem prepareUpsert_absorbAll
    {mappings : List TableMapping}
    {tm : TableMapping}
    (found : findMapping mappings tm.sourceTable = some tm)
    {id : String}
    (nonempty : id ≠ "")
    {row : SourceRow}
    {store : BackfillStore}
    (dumped : store.getRowData tm.sourceTable id =
      some (dumpRow tm (row.fields tm)).2)
    {events : List ChangeEvent}
    (updates : ∀ event ∈ events, UpdatesTo tm id event) :
    (∃ rowData,
      (absorbAll mappings store events).getRowData tm.sourceTable id =
          some rowData ∧
        ∀ insert,
          Inserts (· ∈ selectColumns tm) tm.sourceTable (overlay row events)
            insert →
          prepareUpsert tm (toChangeEvent ⟨tm.sourceTable, id, rowData⟩) =
            prepareUpsert tm insert) ∧
      absorbAll mappings (absorbAll mappings store events) events =
        absorbAll mappings store events := by
  have absorbed := absorbAll_updatesTo found nonempty updates dumped
  have kept := getRowData_updateRowData dumped
    (mergeAll tm (dumpRow tm (row.fields tm)).2 events)
  constructor
  · refine ⟨_, absorbed ▸ kept, fun insert inserts => ?_⟩
    rw [prepareUpsert_toChangeEvent,
      prepareUpsert_of_inserts (fun _ member => member) inserts]
    exact upsertOf_congr fun name member =>
      columnText_mergeAll_dumpRow row events member
  · have again := absorbAll_updatesTo found nonempty updates kept
    rw [absorbed, again, mergeAll_mergeAll (mem_dumpRow row),
      updateRowData_updateRowData]

/-! ## An article with two updates -/

def article : SourceRow
  | "id" => some "1"
  | "body" => some "old"
  | _ => none

/-- One update leaves the body out and sets the title, the other one sets the
body and a column without a mapping, and clears the title. -/
def articleUpdates : List ChangeEvent :=
  [[{ name := "id", textValue := "1" },
      { name := "body", isUnchangedToast := true },
      { name := "title", textValue := "draft" }],
    [{ name := "id", textValue := "1" },
      { name := "body", textValue := "new" },
      { name := "author", textValue := "b" },
      { name := "title", isNull := true }]].map fun columns =>
    { op := .update
      tableName := "articles"
      newRow := some { kind := .updateNew, columns } }

def articleMapping : TableMapping := (articleBlock "body" ["title"]).load

def articleStore : BackfillStore :=
  stageRow articleMapping {} (article.fields articleMapping)

theorem prepareUpsert_absorbAll_articles :
    (∃ rowData,
      (absorbAll [articleMapping] articleStore articleUpdates).getRowData
          "articles" "1" = some rowData ∧
        ∀ insert,
          Inserts (· ∈ selectColumns articleMapping) "articles"
            (overlay article articleUpdates) insert →
          prepareUpsert articleMapping
              (toChangeEvent ⟨"articles", "1", rowData⟩) =
            prepareUpsert articleMapping insert) ∧
      absorbAll [articleMapping]
          (absorbAll [articleMapping] articleStore articleUpdates)
          articleUpdates =
        absorbAll [articleMapping] articleStore articleUpdates := by
  have dumped : articleStore.getRowData articleMapping.sourceTable "1" =
      some (dumpRow articleMapping (article.fields articleMapping)).2 := rfl
  refine prepareUpsert_absorbAll rfl (by decide) dumped ?_
  simp only [articleUpdates, List.map_cons, List.map_nil, List.forall_mem_cons]
  exact ⟨⟨rfl, rfl, _, rfl, rfl⟩, ⟨rfl, rfl, _, rfl, rfl⟩, by simp⟩

end Overlay
end Backfill
end Walkrie
