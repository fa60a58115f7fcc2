import Walkrie.Sink.Configuration
import Walkrie.Backfill.Serialize
import Walkrie.Backfill.Resume

/-!
# Backfill for several sinks

A row is staged once for all sinks.  The dump and the merge of live updates
read the columns of the first mapping of its table, while each sink plans the
rehydrated row by a mapping of its own.  The staged row carries the present
value of the first mapping's columns and nothing else, and of several rows
with one id of that mapping only the first is staged.  So the sinks are served
exactly when these columns are all they read and this id tells the rows of the
table apart.
-/

namespace Walkrie
namespace Backfill
namespace Fanout

open Sink

/-! ## Several sinks -/

/-- `backfill_table_mappings`: the mappings of all sinks, one sink after the
other. -/
def backfillTableMappings (sinks : List SinkConfiguration) :
    List TableMapping :=
  sinks.flatMap SinkConfiguration.mappings

/-- The mappings a source backfills. -/
def scope (sinks : List SinkConfiguration) (published : List String) :
    List TableMapping :=
  Resume.Config.scope
    { mappings := backfillTableMappings sinks, published }

/-- `dump_all` on a database that stays as it is, when every object can be
written. -/
def dumpAll (mappings : List TableMapping)
    (database : String → List SourceRow) (store : BackfillStore) :
    BackfillStore :=
  mappings.foldl
    (fun store tm =>
      dumpTable tm store { point := 0, result := database tm.sourceTable })
    store

/-- `dump_all` on a database that stays as it is.  The exception of `dump()`
is `none`. -/
def dumpAll? (writes : RowData → Bool) (mappings : List TableMapping)
    (database : String → List SourceRow) (store : BackfillStore) :
    Option BackfillStore :=
  mappings.foldlM
    (fun store tm =>
      let (store, goesOn) := Serialize.dumpTable writes tm store
        { point := 0, result := database tm.sourceTable }
      if goesOn then some store else none)
    store

/-- The store after a stream of events, when every object can be written. -/
def absorbAll (mappings : List TableMapping) (store : BackfillStore)
    (events : List ChangeEvent) : BackfillStore :=
  events.foldl (fun store event => (absorbEvent mappings store event).1) store

/-- The store after a stream of events.  The exception of `dump()` is
`none`. -/
def absorbAll? (writes : RowData → Bool) (mappings : List TableMapping)
    (store : BackfillStore) (events : List ChangeEvent) :
    Option BackfillStore :=
  events.foldlM
    (fun store event =>
      (absorbEvent? writes mappings store event).map Prod.fst)
    store

/-- Some sink reads this column of the table. -/
def Reads (sinks : List SinkConfiguration) (table name : String) : Prop :=
  ∃ sink ∈ sinks, ∃ tm, findMapping sink.mappings table = some tm ∧
    name ∈ selectColumns tm

/-! ## A row and its updates -/

/-- The tuple shows the row after an update: of each column its value, or
nothing if the update has left it as it was. -/
def Shows (columns : String → Prop) (before after : SourceRow)
    (tuple : DecodedRow) : Prop :=
  ∀ name, columns name → tuple.known? name = some (after name) ∨
    tuple.known? name = none ∧ after name = before name

/-- An event of the stream, with the row before and after it: an update of the
row, or an event about another one. -/
def Revises (columns : String → Prop) (tm : TableMapping) (id : String)
    (before after : SourceRow) (event : ChangeEvent) : Prop :=
  if Concerns tm id event then
    event.op = .update ∧
      ∃ tuple, event.newRow = some tuple ∧ Shows columns before after tuple
  else after = before

/-- A stream of events, each with the row after it. -/
def Follows (columns : String → Prop) (tm : TableMapping) (id : String) :
    SourceRow → List (ChangeEvent × SourceRow) → Prop
  | _, [] => True
  | before, (event, after) :: history =>
      Revises columns tm id before after event ∧
        Follows columns tm id after history

/-- The row after all events. -/
def currentRow (row : SourceRow) (history : List (ChangeEvent × SourceRow)) :
    SourceRow :=
  (history.map Prod.snd).getLastD row

theorem currentRow_cons
    (row after : SourceRow)
    (event : ChangeEvent)
    (history : List (ChangeEvent × SourceRow)) :
    currentRow row ((event, after) :: history) = currentRow after history := by
  simp only [currentRow, List.map_cons, List.getLastD_cons]

/-- An insert of the row as it is. -/
structure Inserts (columns : String → Prop) (table : String) (row : SourceRow)
    (event : ChangeEvent) : Prop where
  op : event.op = .insert
  table : event.tableName = table
  tuple : ∃ tuple, event.newRow = some tuple ∧
    ∀ name, columns name → tuple.known? name = some (row name)

/-- The row has a text in every column. -/
def Filled (columns : String → Prop) (row : SourceRow) : Prop :=
  ∀ name, columns name → ∃ value, value ≠ "" ∧ row name = some value

/-- A row of the source table, the events of the stream while it is staged,
and the database as the dump finds it. -/
structure Backfilled where
  first : TableMapping
  id : String
  row : SourceRow
  history : List (ChangeEvent × SourceRow)
  database : String → List SourceRow

/-- The first mapping of the table names the row, which is dumped as it is at
some point of the stream.  No two rows of the table share a value of a unique
column. -/
structure Backfilled.Of (sinks : List SinkConfiguration)
    (published unique : List String) (table : String)
    (case : Backfilled) : Prop where
  first : findMapping (scope sinks published) table = some case.first
  filled : Filled (Reads sinks table) case.row
  named : case.row case.first.idSource = some case.id
  follows : Follows (Reads sinks table) case.first case.id case.row
    case.history
  dumped : ∃ shown ∈ case.row :: case.history.map Prod.snd,
    shown ∈ case.database table
  distinct : ∀ column ∈ unique, ∀ one ∈ case.database table,
    ∀ other ∈ case.database table, ∀ value,
      one column = some value → other column = some value → one = other

/-- The store when the row is claimed, when every object can be written. -/
def Backfilled.store (mappings : List TableMapping) (case : Backfilled) :
    BackfillStore :=
  absorbAll mappings (dumpAll mappings case.database {})
    (case.history.map Prod.fst)

/-- The store when the row is claimed.  The exception of `dump()` is
`none`. -/
def Backfilled.store? (writes : RowData → Bool) (mappings : List TableMapping)
    (case : Backfilled) : Option BackfillStore :=
  (dumpAll? writes mappings case.database {}).bind fun store =>
    absorbAll? writes mappings store (case.history.map Prod.fst)

/-- When the dump returns and the events are absorbed, then whatever else is
claimed, the worker is handed the row, and every sink plans for it what it
plans for an insert of the row as it is. -/
def Serves (sinks : List SinkConfiguration) (published unique : List String)
    (table : String) : Prop :=
  ∀ case : Backfilled, case.Of sinks published unique table →
    ∀ writes store,
      case.store? writes (scope sinks published) = some store →
    ∀ selected, (table, case.id) ∈ selected →
      ∃ rowData,
        ClaimedRow.mk table case.id rowData ∈
          (store.claimPending selected).1 ∧
        ∀ sink ∈ sinks, ∀ insert,
          Inserts (Reads sinks table) table (currentRow case.row case.history)
            insert →
          planEvent sink.mappings
              (toChangeEvent ⟨table, case.id, rowData⟩) =
            planEvent sink.mappings insert

/-- The first mapping of the table reads every column any sink reads. -/
def Covers (sinks : List SinkConfiguration) (published : List String)
    (table : String) : Prop :=
  ∀ first, findMapping (scope sinks published) table = some first →
    ∀ name, Reads sinks table name → name ∈ selectColumns first

/-- The id column of the first mapping is unique, or all that any sink
reads. -/
def Keyed (sinks : List SinkConfiguration) (published unique : List String)
    (table : String) : Prop :=
  ∀ first, findMapping (scope sinks published) table = some first →
    first.idSource ∈ unique ∨
      ∀ name, Reads sinks table name → name = first.idSource

/-! ## When nothing is thrown -/

section Mappings

variable {sinks : List SinkConfiguration}
variable {published : List String}
variable {table : String}
variable {first : TableMapping}

/-- The first mapping of the table is the one some sink plans by. -/
theorem reads_of_first
    (found : findMapping (scope sinks published) table = some first)
    {name : String}
    (selected : name ∈ selectColumns first) :
    Reads sinks table name := by
  have member : first ∈ scope sinks published := List.mem_of_find?_eq_some found
  have named := findMapping_sourceTable found
  have listed : published.contains table = true := by
    rw [← named]
    exact (List.mem_filter.mp member).2
  have chosen : (backfillTableMappings sinks).find? (fun tm =>
      published.contains tm.sourceTable ∧
        decide (tm.sourceTable = table) = true) = some first := by
    rw [← List.find?_filter]
    exact found
  have sameTest : (fun tm : TableMapping =>
      decide (published.contains tm.sourceTable ∧
        decide (tm.sourceTable = table) = true)) =
      fun tm => decide (tm.sourceTable = table) := by
    funext tm
    by_cases same : tm.sourceTable = table
    · simp only [same, listed, decide_true, and_self]
    · simp [same]
  rw [sameTest, backfillTableMappings, List.find?_flatMap] at chosen
  obtain ⟨sink, member, own⟩ := List.exists_of_findSome?_eq_some chosen
  exact ⟨sink, member, first, own, selected⟩

/-! ## What the dump stages -/

/-- A row that is staged already stays as it is. -/
theorem stageRows_of_staged
    {id : String}
    {staged : StoredRow}
    (rows : List SourceRow)
    (store : BackfillStore)
    (present : store.rows.lookup (first.sourceTable, id) = some staged) :
    (rows.foldl (fun store row => stageRow first store (row.fields first))
      store).rows.lookup (first.sourceTable, id) = some staged := by
  induction rows generalizing store with
  | nil => exact present
  | cons row rows inductionHypothesis =>
      apply inductionHypothesis
      rw [lookup_stageRow, present]
      simp

/-- The first row of the result with its id is staged. -/
theorem stageRows_of_shown
    {id : String}
    (nonempty : id ≠ "")
    {shown : SourceRow}
    (rows : List SourceRow)
    (found : rows.find? (fun row => row first.idSource = some id) =
      some shown)
    (store : BackfillStore)
    (absent : store.rows.lookup (first.sourceTable, id) = none) :
    (rows.foldl (fun store row => stageRow first store (row.fields first))
      store).rows.lookup (first.sourceTable, id) =
        some { rowData := (dumpRow first (shown.fields first)).2 } := by
  induction rows generalizing store with
  | nil => cases found
  | cons row rows inductionHypothesis =>
      rw [List.foldl_cons]
      by_cases here : row first.idSource = some id
      · have same : row = shown := by simpa [here] using found
        subst same
        apply stageRows_of_staged
        rw [lookup_stageRow, if_pos ⟨here, nonempty⟩, absent]
        rfl
      · apply inductionHypothesis (by simpa [here] using found)
        rw [lookup_stageRow, if_neg (fun same => here same.1), absent]

/-- Dumping another table touches neither the rows nor the progress of this
one. -/
theorem dumpTable_of_other
    {tm : TableMapping}
    (other : tm.sourceTable ≠ table)
    (store : BackfillStore)
    (scan : Scan)
    (finished : scan.interrupted = none)
    (id : String) :
    (dumpTable tm store scan).rows.lookup (table, id) =
        store.rows.lookup (table, id) ∧
      (dumpTable tm store scan).isTableDumped table =
        store.isTableDumped table := by
  have rows : ∀ (rows : List SourceRow) (store : BackfillStore),
      (rows.foldl (fun store row => stageRow tm store (row.fields tm))
        store).rows.lookup (table, id) = store.rows.lookup (table, id) := by
    intro rows
    induction rows with
    | nil => exact fun _ => rfl
    | cons row rows inductionHypothesis =>
        intro store
        rw [List.foldl_cons, inductionHypothesis]
        unfold stageRow
        simp only
        split
        · rfl
        · simp [Ne.symm other]
  unfold dumpTable
  split
  · exact ⟨rfl, rfl⟩
  · rw [finished]
    refine ⟨rows scan.result _, ?_⟩
    simp [stageRows_isTableDumped, Ne.symm other]

/-- A table that is complete is left alone by the rest of the dump. -/
theorem dumpAll_of_dumped
    {id : String}
    {database : String → List SourceRow}
    (mappings : List TableMapping)
    (store : BackfillStore)
    (dumped : store.isTableDumped table = true) :
    (dumpAll mappings database store).rows.lookup (table, id) =
      store.rows.lookup (table, id) := by
  unfold dumpAll
  induction mappings generalizing store with
  | nil => rfl
  | cons tm mappings inductionHypothesis =>
      rw [List.foldl_cons]
      by_cases same : tm.sourceTable = table
      · have skipped : ∀ scan, dumpTable tm store scan = store := by
          intro scan
          exact if_pos (by rw [same]; exact dumped)
        rw [skipped]
        exact inductionHypothesis store dumped
      · obtain ⟨rows, progress⟩ := dumpTable_of_other same store
          { point := 0, result := database tm.sourceTable } rfl id
        rw [inductionHypothesis _ (progress.trans dumped), rows]

/-- The dump stages a row with the columns of the first mapping. -/
theorem dumpAll_of_first
    {id : String}
    {database : String → List SourceRow}
    {shown : SourceRow}
    (nonempty : id ≠ "")
    (earliest : (database table).find?
      (fun row => row first.idSource = some id) = some shown)
    (mappings : List TableMapping)
    (found : findMapping mappings table = some first)
    (store : BackfillStore)
    (undumped : store.isTableDumped table = false)
    (absent : store.rows.lookup (table, id) = none) :
    (dumpAll mappings database store).rows.lookup (table, id) =
      some { rowData := (dumpRow first (shown.fields first)).2 } := by
  have table_eq := findMapping_sourceTable found
  induction mappings generalizing store with
  | nil => cases found
  | cons tm mappings inductionHypothesis =>
      unfold dumpAll
      rw [List.foldl_cons]
      by_cases same : tm.sourceTable = table
      · have chosen : tm = first := by
          simpa [findMapping, same] using found
        subst chosen
        subst table_eq
        have staged := stageRows_of_shown nonempty _ earliest
          (store.markTableDumpStarted tm.sourceTable) absent
        have now : dumpTable tm store
            { point := 0, result := database tm.sourceTable } =
            BackfillStore.markTableDumped ((database tm.sourceTable).foldl
              (fun store row => stageRow tm store (row.fields tm))
              (store.markTableDumpStarted tm.sourceTable)) tm.sourceTable
              (database tm.sourceTable).length := by
          simp [dumpTable, undumped]
        rw [now]
        refine (dumpAll_of_dumped mappings _ ?_).trans staged
        simp
      · have later : findMapping mappings table = some first := by
          simpa [findMapping, same] using found
        obtain ⟨rows, progress⟩ := dumpTable_of_other same store
          { point := 0, result := database tm.sourceTable } rfl id
        exact inductionHypothesis later _ (progress.trans undumped)
          (rows.trans absent)

end Mappings

/-! ## What the updates leave -/

section Updates

variable {mappings : List TableMapping}
variable {tm : TableMapping}
variable {id : String}
variable {event : ChangeEvent}
variable {store : BackfillStore}

/-- The staged row carries these values of the mapping's columns, and no other
column. -/
def Carries (tm : TableMapping) (id : String) (image : SourceRow)
    (store : BackfillStore) : Prop :=
  ∃ staged, store.rows.lookup (tm.sourceTable, id) = some staged ∧
    ∀ name, staged.rowData.lookup name =
      if name ∈ selectColumns tm then some (image name) else none

/-- An update overwrites the columns its tuple shows. -/
theorem Carries.update
    {image : SourceRow}
    {tuple : DecodedRow}
    (found : findMapping mappings tm.sourceTable = some tm)
    (nonempty : id ≠ "")
    (about : Concerns tm id event)
    (op : event.op = .update)
    (new : event.newRow = some tuple)
    (carries : Carries tm id image store) :
    Carries tm id (fun name => (tuple.known? name).getD (image name))
      (absorbEvent mappings store event).1 := by
  obtain ⟨staged, present, columns⟩ := carries
  have kind := absorption_of_update found nonempty about op new
  have existing : store.getRowData tm.sourceTable id = some staged.rowData := by
    simp [BackfillStore.getRowData, present]
  refine ⟨{ staged with
    rowData := mergeKnownColumns staged.rowData tuple tm }, ?_, ?_⟩
  · simp [absorbEvent, kind, existing, present]
  · intro name
    simp only [lookup_mergeKnownColumns, columns]
    split
    · cases tuple.known? name <;> simp
    · rfl

/-- An update that is merged into the row keeps its id. -/
theorem Revises.named
    {columns : String → Prop}
    (nonempty : id ≠ "")
    (reads : columns tm.idSource)
    {before after : SourceRow}
    (revises : Revises columns tm id before after event)
    (named : before tm.idSource = some id) :
    after tm.idSource = some id := by
  unfold Revises at revises
  split at revises <;> rename_i about
  · obtain ⟨op, tuple, new, shows⟩ := revises
    have read : tuple.getColumn tm.idSource = id := by
      simpa [rowId, op, new] using about.2
    have known := DecodedRow.known?_of_getColumn (read ▸ nonempty)
    rcases shows _ reads with sent | ⟨unsent, _⟩
    · rw [known, read] at sent
      exact (Option.some.inj sent).symm
    · rw [known] at unsent
      cases unsent
  · rw [revises]
    exact named

theorem Follows.named
    {columns : String → Prop}
    (nonempty : id ≠ "")
    (reads : columns tm.idSource)
    {row : SourceRow}
    {history : List (ChangeEvent × SourceRow)}
    (follows : Follows columns tm id row history)
    (named : row tm.idSource = some id) :
    ∀ shown ∈ row :: history.map Prod.snd, shown tm.idSource = some id := by
  induction history generalizing row with
  | nil => simpa using named
  | cons entry history inductionHypothesis =>
      obtain ⟨revises, later⟩ := follows
      rw [List.forall_mem_cons]
      exact ⟨named,
        inductionHypothesis later (revises.named nonempty reads named)⟩

/-- A row is carried as it is after the whole stream, whatever point of the
stream the dump has shown. -/
theorem Carries.absorbAll
    {columns : String → Prop}
    (found : findMapping mappings tm.sourceTable = some tm)
    (nonempty : id ≠ "")
    (selected : ∀ name ∈ selectColumns tm, columns name)
    {row image : SourceRow}
    {history : List (ChangeEvent × SourceRow)}
    (follows : Follows columns tm id row history)
    (ahead : ∀ name ∈ selectColumns tm,
      ∃ shown ∈ row :: history.map Prod.snd, image name = shown name)
    (carries : Carries tm id image store) :
    Carries tm id (currentRow row history)
      (absorbAll mappings store (history.map Prod.fst)) := by
  induction history generalizing row image store with
  | nil =>
      obtain ⟨staged, present, values⟩ := carries
      refine ⟨staged, present, fun name => ?_⟩
      rw [values]
      split <;> rename_i member
      · obtain ⟨shown, passed, same⟩ := ahead name member
        rw [same, List.mem_singleton.mp passed]
        rfl
      · rfl
  | cons entry history inductionHypothesis =>
      obtain ⟨event, after⟩ := entry
      obtain ⟨revises, later⟩ := follows
      rw [currentRow_cons]
      unfold Revises at revises
      split at revises <;> rename_i about
      · obtain ⟨op, tuple, new, shows⟩ := revises
        refine inductionHypothesis later ?_
          (carries.update found nonempty about op new)
        intro name member
        rcases shows name (selected name member) with sent | ⟨unsent, kept⟩
        · exact ⟨after, List.mem_cons_self, by simp [sent]⟩
        · -- The value before the update is the one after it.
          obtain ⟨shown, passed, same⟩ := ahead name member
          rcases List.mem_cons.mp passed with rfl | passed
          · exact ⟨after, List.mem_cons_self, by simp [unsent, same, kept]⟩
          · exact ⟨shown, passed, by simp [unsent, same]⟩
      · subst revises
        obtain ⟨staged, present, values⟩ := carries
        have kept : Carries tm id image
            (absorbEvent mappings store event).1 :=
          ⟨staged,
            (lookup_absorbEvent_of_not_concerns found about).trans present,
            values⟩
        refine inductionHypothesis later (fun name member => ?_) kept
        obtain ⟨shown, passed, same⟩ := ahead name member
        refine ⟨shown, ?_, same⟩
        simpa using passed

/-- A claim hands over the values that are carried. -/
theorem Carries.claimPending
    {image : SourceRow}
    (carries : Carries tm id image store)
    {selected : List (String × String)}
    (member : (tm.sourceTable, id) ∈ selected) :
    ∃ rowData,
      (∀ name, columnText rowData name =
        if name ∈ selectColumns tm then (image name).getD "" else "") ∧
      ∀ other, ClaimedRow.mk tm.sourceTable id other ∈
        (store.claimPending selected).1 ↔ other = rowData := by
  obtain ⟨staged, present, values⟩ := carries
  refine ⟨staged.rowData, fun name => ?_, fun other => ?_⟩
  · rw [columnText, values]
    split <;> rfl
  · rw [BackfillStore.mem_claimPending]
    simp [member, BackfillStore.getRowData, present, eq_comm]

end Updates

/-! ## What the sinks plan -/

section Planning

variable {mappings : List TableMapping}
variable {tm : TableMapping}
variable {table : String}

/-- The upsert of a row that reads like this. -/
def upsertOf (tm : TableMapping) (read : String → String) :
    Option BatchEvent :=
  if read tm.idSource = "" ∨ read tm.embedSource = "" then none
  else
    some
      { kind := .upsert
        tm
        idVal := read tm.idSource
        embedVal := read tm.embedSource
        metaVals := tm.metadataSources.map read }

/-- An insert is planned by what its tuple shows. -/
theorem prepareUpsert_of_inserts
    {columns : String → Prop}
    {row : SourceRow}
    {event : ChangeEvent}
    (selected : ∀ name ∈ selectColumns tm, columns name)
    (inserts : Inserts columns table row event) :
    prepareUpsert tm event = upsertOf tm fun name => (row name).getD "" := by
  obtain ⟨op, _, tuple, new, shows⟩ := inserts
  have read : ∀ name ∈ selectColumns tm,
      tuple.getColumn name = (row name).getD "" := fun name member =>
    DecodedRow.getColumn_of_known? (shows name (selected name member))
  have metadata : tm.metadataSources.map tuple.getColumn =
      tm.metadataSources.map fun name => (row name).getD "" :=
    List.map_congr_left fun name member =>
      read name (by simp [selectColumns, member])
  simp [op, prepareUpsert, new, upsertOf, metadata,
    read tm.idSource (by simp [selectColumns]),
    read tm.embedSource (by simp [selectColumns])]

/-- Two readings give the same upsert if they agree on the columns of the
mapping. -/
theorem upsertOf_congr
    {read other : String → String}
    (agree : ∀ name ∈ selectColumns tm, read name = other name) :
    upsertOf tm read = upsertOf tm other := by
  have metadata : tm.metadataSources.map read =
      tm.metadataSources.map other :=
    List.map_congr_left fun name member =>
      agree name (by simp [selectColumns, member])
  simp only [upsertOf, metadata, agree tm.idSource (by simp [selectColumns]),
    agree tm.embedSource (by simp [selectColumns])]

end Planning

/-! ## When the sinks are served -/

section Serving

variable {sinks : List SinkConfiguration}
variable {published unique : List String}
variable {table : String}

/-- What a sink plans for the rehydrated row: it is blind to columns the first
mapping does not read. -/
theorem Carries.planned
    {first : TableMapping}
    (named : first.sourceTable = table)
    {id : String}
    {image : SourceRow}
    {store : BackfillStore}
    (carries : Carries first id image store)
    {selected : List (String × String)}
    (member : (table, id) ∈ selected) :
    ∃ rowData,
      (∀ other, ClaimedRow.mk table id other ∈
        (store.claimPending selected).1 ↔ other = rowData) ∧
      ∀ mappings tm, findMapping mappings table = some tm →
        planEvent mappings (toChangeEvent ⟨table, id, rowData⟩) =
          upsertOf tm fun name =>
            if name ∈ selectColumns first then (image name).getD ""
            else "" := by
  subst named
  obtain ⟨rowData, columns, claimed⟩ := carries.claimPending member
  refine ⟨rowData, claimed, fun mappings tm found => ?_⟩
  rw [planEvent_toChangeEvent found, ← funext columns]
  rfl

/-- The first row with its id is staged with the columns of the first
mapping. -/
theorem carries_dumpAll
    {first : TableMapping}
    (found : findMapping (scope sinks published) table = some first)
    {id : String}
    (nonempty : id ≠ "")
    {database : String → List SourceRow}
    {shown : SourceRow}
    (earliest : (database table).find?
      (fun row => row first.idSource = some id) = some shown) :
    Carries first id shown (dumpAll (scope sinks published) database {}) := by
  have staged := dumpAll_of_first nonempty earliest (scope sinks published)
    found {} rfl rfl
  rw [← findMapping_sourceTable found] at staged
  exact ⟨_, staged,
    (foldl_dumpField first shown (selectColumns first) ("", ∅)).2⟩

theorem Backfilled.Of.nonempty
    {case : Backfilled}
    (proper : case.Of sinks published unique table) :
    case.id ≠ "" := by
  obtain ⟨value, nonempty, shown⟩ := proper.filled case.first.idSource
    (reads_of_first proper.first (by simp [selectColumns]))
  rw [proper.named] at shown
  cases shown
  exact nonempty

/-- The row is staged with the present values of the first mapping's columns
when it is claimed. -/
theorem Backfilled.Of.carries
    {case : Backfilled}
    (proper : case.Of sinks published unique table)
    (keyed : Keyed sinks published unique table) :
    Carries case.first case.id (currentRow case.row case.history)
      (case.store (scope sinks published)) := by
  have found : findMapping (scope sinks published) case.first.sourceTable =
      some case.first := by
    rw [findMapping_sourceTable proper.first]
    exact proper.first
  have selected : ∀ name ∈ selectColumns case.first, Reads sinks table name :=
    fun name member => reads_of_first proper.first member
  obtain ⟨shown, passed, member⟩ := proper.dumped
  have named : shown case.first.idSource = some case.id :=
    proper.follows.named proper.nonempty
      (selected _ (by simp [selectColumns])) proper.named shown passed
  have present : ((case.database table).find? fun row =>
      row case.first.idSource = some case.id).isSome := by
    rw [List.find?_isSome]
    exact ⟨shown, member, by simpa using named⟩
  obtain ⟨earliest, first⟩ := Option.isSome_iff_exists.mp present
  have sameId : earliest case.first.idSource = some case.id := by
    simpa using List.find?_some first
  -- Another row with the same id looks like this one to the first mapping.
  have alike : ∀ name ∈ selectColumns case.first,
      earliest name = shown name := by
    intro name among
    rcases keyed case.first proper.first with distinct | only
    · rw [proper.distinct _ distinct earliest (List.mem_of_find?_eq_some first)
        shown member case.id sameId named]
    · rw [only name (selected name among), sameId, named]
  exact (carries_dumpAll proper.first proper.nonempty first).absorbAll found
    proper.nonempty selected proper.follows
    fun name among => ⟨shown, passed, alike name among⟩

/-- The columns of the table that some sink reads. -/
def readColumns (sinks : List SinkConfiguration) (table : String) :
    List String :=
  sinks.flatMap fun sink =>
    (findMapping sink.mappings table).toList.flatMap selectColumns

end Serving

/-! ## Articles in two sinks -/

/-- A block for articles that embeds one column and stores the others. -/
def articleBlock (embed : String) (others : List String) : MappingBlock :=
  { sourceTable := "articles"
    columns :=
      { sourceColumn := "id", sinkColumn := "id", role := "id" } ::
      { sourceColumn := embed, sinkColumn := "content", role := "embed" } ::
      others.map fun name =>
        { sourceColumn := name, sinkColumn := name, role := "metadata" } }

end Fanout
end Backfill
end Walkrie
