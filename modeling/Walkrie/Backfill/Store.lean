import Walkrie.Library.Table

/-!
# The backfill store

One file per source with two tables: the staged rows with their status, and
how far the dump of each source table has got.  Every definition below is one
SQL statement, which the database executes atomically; the file outlives the
processes that open it.
-/

namespace Walkrie
namespace Backfill

/-- There is no third state: a row that is done has been deleted. -/
inductive RowStatus
  | pending
  | claimed
  deriving DecidableEq

/-- A staged row as the JSON object stored for it: the value of each column,
`none` for null. -/
abbrev RowData := Table String (Option String)

/-- A row of `backfill_rows` without its key. -/
structure StoredRow where
  rowData : RowData
  status : RowStatus := .pending
  deriving DecidableEq

inductive DumpStatus
  | inProgress
  | complete
  deriving DecidableEq

/-- A row of `backfill_tables` without its key. -/
structure DumpState where
  status : DumpStatus
  dumpedRowCount : Option Nat := none
  deriving DecidableEq

/-- A row handed to a drain worker. -/
structure ClaimedRow where
  sourceTable : String
  rowId : String
  rowData : RowData
  deriving DecidableEq

/-- The two tables of the store.  Staged rows are keyed by source table and
row id. -/
structure BackfillStore where
  rows : Table (String × String) StoredRow := ∅
  tables : Table String DumpState := ∅

namespace BackfillStore

/-- First statement of `reset`. -/
def deleteRows (store : BackfillStore) : BackfillStore :=
  { store with rows := ∅ }

/-- Second statement of `reset`. -/
def deleteTables (store : BackfillStore) : BackfillStore :=
  { store with tables := ∅ }

/-- `reset_stale_claims`. -/
def resetStaleClaims (store : BackfillStore) : BackfillStore :=
  { store with
    rows := Table.updateAll store.rows fun _ row =>
      if row.status = .claimed then { row with status := .pending } else row }

/-- `insert_row`. -/
def insertRow
    (store : BackfillStore)
    (sourceTable rowId : String)
    (rowData : RowData) : BackfillStore :=
  { store with
    rows := Table.insertOrIgnore store.rows (sourceTable, rowId) { rowData } }

/-- `mark_table_dump_started`. -/
def markTableDumpStarted (store : BackfillStore) (sourceTable : String) :
    BackfillStore :=
  { store with
    tables :=
      Table.insertOrIgnore store.tables sourceTable { status := .inProgress } }

/-- `mark_table_dumped`. -/
def markTableDumped
    (store : BackfillStore)
    (sourceTable : String)
    (rowCount : Nat) : BackfillStore :=
  { store with
    tables :=
      Table.upsert store.tables sourceTable
        { status := .complete, dumpedRowCount := some rowCount } }

/-- `is_table_dumped`. -/
def isTableDumped (store : BackfillStore) (sourceTable : String) : Bool :=
  (store.tables.lookup sourceTable).any fun state =>
    state.status = .complete

/-- `has_any_dump_state`. -/
def hasAnyDumpState (store : BackfillStore) : Bool :=
  !store.tables.entries.isEmpty

/-- Keys of the rows waiting for a worker, in insertion order. -/
def pendingKeys (store : BackfillStore) : List (String × String) :=
  (store.rows.entries.filter fun row => row.2.status = .pending).map
    Sigma.fst

/-- `has_pending`. -/
def hasPending (store : BackfillStore) : Bool :=
  !store.pendingKeys.isEmpty

/-- `get_row_data`. -/
def getRowData (store : BackfillStore) (sourceTable rowId : String) :
    Option RowData :=
  (store.rows.lookup (sourceTable, rowId)).map StoredRow.rowData

/-- `update_row_data`, together with whether a row was there. -/
def updateRowData
    (store : BackfillStore)
    (sourceTable rowId : String)
    (rowData : RowData) : BackfillStore × Bool :=
  ({ store with
      rows := Table.update store.rows (sourceTable, rowId) fun row =>
        { row with rowData } },
    (store.rows.lookup (sourceTable, rowId)).isSome)

/-- The rows the subquery of `claim_pending` may return.  A `LIMIT` without an
order leaves open which pending rows they are. -/
def Selects
    (store : BackfillStore)
    (limit : Nat)
    (selected : List (String × String)) : Prop :=
  selected.Nodup ∧ (∀ key ∈ selected, key ∈ store.pendingKeys) ∧
    selected.length = min limit store.pendingKeys.length

instance (store : BackfillStore) (limit : Nat)
    (selected : List (String × String)) :
    Decidable (store.Selects limit selected) :=
  inferInstanceAs (Decidable (_ ∧ _ ∧ _))

/-- `claim_pending` for the rows its subquery returned. -/
def claimPending
    (store : BackfillStore)
    (selected : List (String × String)) : List ClaimedRow × BackfillStore :=
  (selected.filterMap fun key =>
      (store.getRowData key.1 key.2).map (ClaimedRow.mk key.1 key.2),
    { store with
      rows := Table.updateAll store.rows fun key row =>
        if key ∈ selected then { row with status := .claimed } else row })

/-- `mark_done`. -/
def markDone (store : BackfillStore) (sourceTable rowId : String) :
    BackfillStore :=
  { store with rows := store.rows.erase (sourceTable, rowId) }

/-! ## What a statement leaves in the store -/

variable {store : BackfillStore}

/-- The waiting rows are those found with status pending. -/
theorem mem_pendingKeys
    {key : String × String} :
    key ∈ store.pendingKeys ↔
      ∃ rowData, store.rows.lookup key = some ⟨rowData, .pending⟩ := by
  simp only [pendingKeys, List.mem_map, List.mem_filter, decide_eq_true_eq]
  constructor
  · rintro ⟨⟨found, rowData, status⟩, ⟨member, pending⟩, rfl⟩
    cases pending
    exact ⟨rowData, AList.mem_lookup_iff.mpr member⟩
  · rintro ⟨rowData, found⟩
    exact ⟨⟨key, rowData, .pending⟩, ⟨AList.mem_lookup_iff.mp found, rfl⟩, rfl⟩

theorem nodup_pendingKeys (store : BackfillStore) :
    store.pendingKeys.Nodup :=
  List.Sublist.nodup (List.filter_sublist.map Sigma.fst) store.rows.nodupKeys

@[simp]
theorem lookup_insertRow
    (sourceTable rowId : String)
    (rowData : RowData)
    (key : String × String) :
    (store.insertRow sourceTable rowId rowData).rows.lookup key =
      if key = (sourceTable, rowId) then
        some ((store.rows.lookup (sourceTable, rowId)).getD { rowData })
      else store.rows.lookup key :=
  Table.lookup_insertOrIgnore _ _ _ _

@[simp]
theorem lookup_updateRowData
    (sourceTable rowId : String)
    (rowData : RowData)
    (key : String × String) :
    (store.updateRowData sourceTable rowId rowData).1.rows.lookup key =
      if key = (sourceTable, rowId) then
        (store.rows.lookup (sourceTable, rowId)).map fun row =>
          { row with rowData }
      else store.rows.lookup key :=
  Table.lookup_update _ _ _ _

@[simp]
theorem lookup_claimPending
    (selected : List (String × String))
    (key : String × String) :
    (store.claimPending selected).2.rows.lookup key =
      (store.rows.lookup key).map fun row =>
        if key ∈ selected then { row with status := .claimed } else row :=
  Table.lookup_updateAll _ _ _

/-- A claim changes no data. -/
@[simp]
theorem getRowData_claimPending
    (selected : List (String × String))
    (sourceTable rowId : String) :
    (store.claimPending selected).2.getRowData sourceTable rowId =
      store.getRowData sourceTable rowId := by
  unfold getRowData
  rw [lookup_claimPending, Option.map_map]
  congr 1
  funext row
  simp only [Function.comp_apply]
  split <;> rfl

/-- The rows a claim hands over are those selected, as they are stored. -/
theorem mem_claimPending
    {selected : List (String × String)}
    {row : ClaimedRow} :
    row ∈ (store.claimPending selected).1 ↔
      (row.sourceTable, row.rowId) ∈ selected ∧
        store.getRowData row.sourceTable row.rowId = some row.rowData := by
  simp only [claimPending, List.mem_filterMap, Option.map_eq_some_iff]
  constructor
  · rintro ⟨key, chosen, rowData, found, rfl⟩
    exact ⟨chosen, found⟩
  · rintro ⟨chosen, found⟩
    exact ⟨(row.sourceTable, row.rowId), chosen, row.rowData, found, rfl⟩

@[simp]
theorem lookup_markDone
    (sourceTable rowId : String)
    (key : String × String) :
    (store.markDone sourceTable rowId).rows.lookup key =
      if key = (sourceTable, rowId) then none else store.rows.lookup key :=
  Table.lookup_erase_eq _ _ _

/-! ## The rows that are waiting -/

/-- The rows a claim selects wait no longer. -/
theorem mem_pendingKeys_claimPending
    {selected : List (String × String)}
    {key : String × String} :
    key ∈ (store.claimPending selected).2.pendingKeys ↔
      key ∈ store.pendingKeys ∧ key ∉ selected := by
  simp only [mem_pendingKeys, lookup_claimPending]
  cases store.rows.lookup key with
  | none => simp
  | some row =>
      obtain ⟨rowData, status⟩ := row
      by_cases member : key ∈ selected <;> simp [member]

theorem mem_pendingKeys_markDone
    {sourceTable rowId : String}
    {key : String × String} :
    key ∈ (store.markDone sourceTable rowId).pendingKeys ↔
      key ∈ store.pendingKeys ∧ key ≠ (sourceTable, rowId) := by
  simp only [mem_pendingKeys, lookup_markDone]
  by_cases same : key = (sourceTable, rowId) <;> simp [same]

theorem mem_pendingKeys_updateRowData
    {sourceTable rowId : String}
    {rowData : RowData}
    {key : String × String} :
    key ∈ (store.updateRowData sourceTable rowId rowData).1.pendingKeys ↔
      key ∈ store.pendingKeys := by
  simp only [mem_pendingKeys, lookup_updateRowData]
  split <;> rename_i same
  · rw [same]
    cases store.rows.lookup (sourceTable, rowId) with
    | none => simp
    | some row => cases row; simp
  · rfl

/-- Each row a claim selects is one row less. -/
theorem length_pendingKeys_claimPending
    {limit : Nat}
    {selected : List (String × String)}
    (selects : store.Selects limit selected) :
    (store.claimPending selected).2.pendingKeys.length + selected.length ≤
      store.pendingKeys.length := by
  rw [← List.length_append]
  refine List.Subperm.length_le (List.Nodup.subperm ?_ ?_)
  · refine List.Nodup.append (nodup_pendingKeys _) selects.1 ?_
    intro key waits member
    exact (mem_pendingKeys_claimPending.mp waits).2 member
  · intro key member
    rcases List.mem_append.mp member with waits | member
    · exact (mem_pendingKeys_claimPending.mp waits).1
    · exact selects.2.1 key member

/-- Starting a dump completes nothing. -/
@[simp]
theorem isTableDumped_markTableDumpStarted
    (sourceTable other : String) :
    (store.markTableDumpStarted sourceTable).isTableDumped other =
      store.isTableDumped other := by
  unfold isTableDumped markTableDumpStarted
  rw [Table.lookup_insertOrIgnore]
  by_cases same : other = sourceTable
  · subst same
    cases store.tables.lookup other <;> simp
  · rw [if_neg same]

@[simp]
theorem isTableDumped_markTableDumped
    (sourceTable other : String)
    (rowCount : Nat) :
    (store.markTableDumped sourceTable rowCount).isTableDumped other =
      (decide (other = sourceTable) || store.isTableDumped other) := by
  unfold isTableDumped markTableDumped
  rw [Table.lookup_upsert]
  by_cases same : other = sourceTable <;> simp [same]

@[simp]
theorem isTableDumped_insertRow
    (sourceTable rowId other : String)
    (rowData : RowData) :
    (store.insertRow sourceTable rowId rowData).isTableDumped other =
      store.isTableDumped other :=
  rfl

theorem hasAnyDumpState_iff :
    store.hasAnyDumpState = true ↔
      ∃ sourceTable state, store.tables.lookup sourceTable = some state := by
  unfold hasAnyDumpState
  constructor
  · intro nonempty
    cases entries : store.tables.entries with
    | nil => simp [entries] at nonempty
    | cons row rows =>
        refine ⟨row.1, row.2, AList.mem_lookup_iff.mpr ?_⟩
        rw [entries]
        exact List.mem_cons_self
  · rintro ⟨sourceTable, state, found⟩
    have member := AList.mem_lookup_iff.mp found
    cases entries : store.tables.entries with
    | nil =>
        rw [entries] at member
        cases member
    | cons row rows => simp

@[simp]
theorem hasAnyDumpState_markTableDumpStarted
    (sourceTable : String) :
    (store.markTableDumpStarted sourceTable).hasAnyDumpState = true :=
  hasAnyDumpState_iff.mpr
    ⟨sourceTable, _, (Table.lookup_insertOrIgnore _ _ _ _).trans (if_pos rfl)⟩

@[simp]
theorem hasAnyDumpState_markTableDumped
    (sourceTable : String)
    (rowCount : Nat) :
    (store.markTableDumped sourceTable rowCount).hasAnyDumpState = true :=
  hasAnyDumpState_iff.mpr
    ⟨sourceTable, _, (Table.lookup_upsert _ _ _ _).trans (if_pos rfl)⟩

/-- A store without dump state has no complete table. -/
theorem hasAnyDumpState_of_isTableDumped
    {sourceTable : String}
    (dumped : store.isTableDumped sourceTable = true) :
    store.hasAnyDumpState = true := by
  unfold isTableDumped at dumped
  cases found : store.tables.lookup sourceTable with
  | none => simp [found] at dumped
  | some state => exact hasAnyDumpState_iff.mpr ⟨sourceTable, state, found⟩

end BackfillStore

end Backfill
end Walkrie
