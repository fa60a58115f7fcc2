import Walkrie.Backfill.Reconcile

/-!
# Backfill without a pinned snapshot converges

One mapped table is dumped by scans at arbitrary points of its history, which
is then replayed from the start while staged rows are drained in between.  As
long as no event falls between the statements of a drain, the sink ends with
the text every source row has after the history.  The invariant is that the
image of each row, staged or in the sink, is ahead of the replay.
-/

namespace Walkrie
namespace Backfill

open Sink

/-! ## Dumping -/

/-- One attempt to dump the table: the point of the history at which its query
reads the table, the rows the query returns, and after how many of them the
attempt is interrupted, if it is. -/
structure Scan where
  point : Nat
  result : List SourceRow
  interrupted : Option Nat := none

/-- The body of the loop of `dump_all` for one table. -/
def dumpTable (tm : TableMapping) (store : BackfillStore) (scan : Scan) :
    BackfillStore :=
  if store.isTableDumped tm.sourceTable then store
  else
    let started := store.markTableDumpStarted tm.sourceTable
    let stage := fun rows : List SourceRow =>
      rows.foldl (fun store row => stageRow tm store (row.fields tm)) started
    match scan.interrupted with
    | some count => stage (scan.result.take count)
    | none =>
        (stage scan.result).markTableDumped tm.sourceTable scan.result.length

/-- All attempts, the first on an empty store. -/
def dump (tm : TableMapping) (scans : List Scan) : BackfillStore :=
  scans.foldl (dumpTable tm) {}

/-- Text of a source row at a point of the history. -/
def textAt (tm : TableMapping) (initial : String → Option String)
    (history : List ChangeEvent) (point : Nat) (id : String) :
    Option String :=
  (history.take point).foldl (textAfter tm id) (initial id)

/-- The source has this row at a point of the history. -/
def ShownAt (tm : TableMapping) (initial : String → Option String)
    (history : List ChangeEvent) (point : Nat) (row : SourceRow) : Prop :=
  ∃ id text, row tm.idSource = some id ∧ row tm.embedSource = some text ∧
    textAt tm initial history point id = some text

/-- The query returns the table as it is at the scan's point. -/
def Scan.Reads (tm : TableMapping) (initial : String → Option String)
    (history : List ChangeEvent) (scan : Scan) : Prop :=
  (∀ row ∈ scan.result, ShownAt tm initial history scan.point row) ∧
  ∀ id text, textAt tm initial history scan.point id = some text →
    ∃ row ∈ scan.result, row tm.idSource = some id

/-! ## Replaying -/

/-- The store and the sink during the replay. -/
structure Replay where
  store : BackfillStore
  sink : Content

/-- One step of the replay. -/
inductive ReplayStep
  | live (event : ChangeEvent)
  | drain (rowId : String)

def ReplayStep.event? : ReplayStep → Option ChangeEvent
  | .live event => some event
  | .drain _ => none

/-- An event is absorbed or applied to the sink at once. -/
def handleEvent (tm : TableMapping) (state : Replay) (event : ChangeEvent) :
    Replay :=
  let (store, absorbed) := absorbEvent [tm] state.store event
  { store
    sink :=
      if absorbed then state.sink
      else state.sink.performAll (plan [tm] [event]) }

/-- One turn of the worker's loop for a single row, with nothing in
between. -/
def drainRow (tm : TableMapping) (state : Replay) (rowId : String) : Replay :=
  if state.store.pendingKeys.contains (tm.sourceTable, rowId) then
    let (claimed, store) := state.store.claimPending [(tm.sourceTable, rowId)]
    { sink := state.sink.performAll (plan [tm] (claimed.map toChangeEvent))
      store := claimed.foldl
        (fun store row => store.markDone row.sourceTable row.rowId) store }
  else state

def replayStep (tm : TableMapping) (state : Replay) : ReplayStep → Replay
  | .live event => handleEvent tm state event
  | .drain rowId => drainRow tm state rowId

def replay (tm : TableMapping) (state : Replay) (schedule : List ReplayStep) :
    Replay :=
  schedule.foldl (replayStep tm) state

/-- Drain every row that is still waiting. -/
def drainRemaining (tm : TableMapping) (state : Replay) : Replay :=
  (state.store.pendingKeys.map Prod.snd).foldl (drainRow tm) state

/-! ## The image of a row -/

/-- Text of the staged row with this id. -/
def stagedText (tm : TableMapping) (store : BackfillStore) (id : String) :
    Option String :=
  (store.rows.lookup (tm.sourceTable, id)).map fun row =>
    columnText row.rowData tm.embedSource

/-- What a row will look like in the sink if nothing more happens to it. -/
def Replay.image (tm : TableMapping) (state : Replay) (id : String) :
    Option String :=
  (stagedText tm state.store id).or (state.sink (tm.rowKey id))

/-- A staged row waits under its own id. -/
def Waiting (tm : TableMapping) (store : BackfillStore) : Prop :=
  ∀ id row, store.rows.lookup (tm.sourceTable, id) = some row →
    id ≠ "" ∧ row.status = .pending ∧ columnText row.rowData tm.idSource = id

/-- Every image is ahead of the events still to be replayed. -/
structure Tracks (tm : TableMapping) (current : String → Option String)
    (events : List ChangeEvent) (state : Replay) : Prop where
  waiting : Waiting tm state.store
  ahead : ∀ id, Ahead tm id (current id) events (state.image tm id)

variable {tm : TableMapping}

/-! ## After the dump -/

/-- Staging a result row adds the row it shows, unless it was there. -/
theorem lookup_stageRow
    (store : BackfillStore)
    (row : SourceRow)
    (id : String) :
    (stageRow tm store (row.fields tm)).rows.lookup (tm.sourceTable, id) =
      if row tm.idSource = some id ∧ id ≠ "" then
        some ((store.rows.lookup (tm.sourceTable, id)).getD
          { rowData := (dumpRow tm (row.fields tm)).2 })
      else store.rows.lookup (tm.sourceTable, id) := by
  have rowId := (dumpRow_fields tm row).1
  cases shown : row tm.idSource with
  | none => simp [stageRow, rowId, shown]
  | some value =>
      rw [shown, Option.getD_some] at rowId
      by_cases same : value = id
      · subst same
        by_cases blank : value = "" <;> simp [stageRow, rowId, blank]
      · by_cases blank : value = "" <;>
          simp [stageRow, rowId, blank, same, Ne.symm same]

section Dump

variable {initial : String → Option String}
variable {history : List ChangeEvent}
variable {store : BackfillStore}

/-- A staged row waits under its own id, with a text the source row has at
some point of the history. -/
structure StagedImage (tm : TableMapping) (initial : String → Option String)
    (history : List ChangeEvent) (id : String) (row : StoredRow) : Prop where
  filled : id ≠ ""
  pending : row.status = .pending
  named : columnText row.rowData tm.idSource = id
  ahead : Ahead tm id (initial id) history
    (some (columnText row.rowData tm.embedSource))

/-- All staged rows of the table are images of source rows. -/
def StagedImages (tm : TableMapping) (initial : String → Option String)
    (history : List ChangeEvent) (store : BackfillStore) : Prop :=
  ∀ id row, store.rows.lookup (tm.sourceTable, id) = some row →
    StagedImage tm initial history id row

/-- What is staged for a row returned by the query. -/
theorem stagedImage_of_shown
    {point : Nat}
    {row : SourceRow}
    {shown text : String}
    (filled : shown ≠ "")
    (named : row tm.idSource = some shown)
    (texted : row tm.embedSource = some text)
    (present : textAt tm initial history point shown = some text) :
    StagedImage tm initial history shown
      { rowData := (dumpRow tm (row.fields tm)).2 } := by
  have columns := (dumpRow_fields tm row).2
  refine ⟨filled, rfl, ?_, ?_⟩
  · simp [columnText, columns tm.idSource (by simp [selectColumns]), named]
  · have staged : columnText (dumpRow tm (row.fields tm)).2 tm.embedSource =
        text := by
      simp [columnText, columns tm.embedSource (by simp [selectColumns]),
        texted]
    rw [staged, ← present]
    exact ahead_take point

/-- Staging a row returned by the query keeps all staged rows images, and
leaves out only rows that were missing and are not the one returned. -/
theorem stageRow_images
    {point : Nat}
    {row : SourceRow}
    (filled : ∀ text, textAt tm initial history point "" ≠ some text)
    (shown : ShownAt tm initial history point row)
    (images : StagedImages tm initial history store) :
    StagedImages tm initial history (stageRow tm store (row.fields tm)) ∧
      ∀ id, (stageRow tm store (row.fields tm)).rows.lookup
          (tm.sourceTable, id) = none →
        store.rows.lookup (tm.sourceTable, id) = none ∧
          row tm.idSource ≠ some id := by
  obtain ⟨shown, text, named, texted, present⟩ := shown
  have nonempty : shown ≠ "" := by
    rintro rfl
    exact filled text present
  constructor
  · intro id found present'
    rw [lookup_stageRow] at present'
    split at present' <;> rename_i same
    · cases named.symm.trans same.1
      cases before : store.rows.lookup (tm.sourceTable, shown) with
      | none =>
          rw [before] at present'
          cases present'
          exact stagedImage_of_shown nonempty named texted present
      | some existing =>
          rw [before] at present'
          cases present'
          exact images shown existing before
    · exact images id found present'
  · intro id absent
    rw [lookup_stageRow] at absent
    split at absent <;> rename_i different
    · cases absent
    · refine ⟨absent, fun same => different ⟨same, ?_⟩⟩
      cases named.symm.trans same
      exact nonempty

/-- The same for the rows of a scan. -/
theorem stageRows_images
    {point : Nat}
    {rows : List SourceRow}
    (filled : ∀ text, textAt tm initial history point "" ≠ some text)
    (shown : ∀ row ∈ rows, ShownAt tm initial history point row)
    (images : StagedImages tm initial history store) :
    let staged := rows.foldl
      (fun store row => stageRow tm store (row.fields tm)) store
    StagedImages tm initial history staged ∧
      ∀ id, staged.rows.lookup (tm.sourceTable, id) = none →
        store.rows.lookup (tm.sourceTable, id) = none ∧
          ∀ row ∈ rows, row tm.idSource ≠ some id := by
  induction rows generalizing store with
  | nil => exact ⟨images, fun id absent => ⟨absent, by simp⟩⟩
  | cons row rows inductionHypothesis =>
      rw [List.forall_mem_cons] at shown
      obtain ⟨next, before⟩ := stageRow_images filled shown.1 images
      obtain ⟨last, absent⟩ := inductionHypothesis shown.2 next
      refine ⟨last, fun id missing => ?_⟩
      obtain ⟨earlier, others⟩ := absent id missing
      obtain ⟨start, other⟩ := before id earlier
      exact ⟨start, by simpa [List.forall_mem_cons] using ⟨other, others⟩⟩

/-- What the dump has staged: images of source rows, and once it is complete,
an image of every row the source had at the point of some scan. -/
structure Dumped (tm : TableMapping) (initial : String → Option String)
    (history : List ChangeEvent) (store : BackfillStore) : Prop where
  images : StagedImages tm initial history store
  complete : store.isTableDumped tm.sourceTable = true →
    ∀ id, store.rows.lookup (tm.sourceTable, id) = none →
      Ahead tm id (initial id) history none

/-- Staging rows does not touch the progress of the dump. -/
theorem stageRows_isTableDumped
    (rows : List SourceRow)
    (store : BackfillStore)
    (sourceTable : String) :
    (rows.foldl (fun store row => stageRow tm store (row.fields tm))
      store).isTableDumped sourceTable = store.isTableDumped sourceTable := by
  induction rows generalizing store with
  | nil => rfl
  | cons row rows inductionHypothesis =>
      rw [List.foldl_cons, inductionHypothesis]
      unfold stageRow
      simp only
      split
      · rfl
      · simp

/-- One attempt to dump the table. -/
theorem dumpTable_dumped
    {scan : Scan}
    (filled : ∀ point text, textAt tm initial history point "" ≠ some text)
    (read : scan.Reads tm initial history)
    (dumped : Dumped tm initial history store) :
    Dumped tm initial history (dumpTable tm store scan) ∧
      (scan.interrupted = none →
        (dumpTable tm store scan).isTableDumped tm.sourceTable = true) := by
  unfold dumpTable
  split <;> rename_i before
  · exact ⟨dumped, fun _ => before⟩
  have started : StagedImages tm initial history
      (store.markTableDumpStarted tm.sourceTable) := dumped.images
  cases interrupted : scan.interrupted with
  | some count =>
      obtain ⟨images, _⟩ := stageRows_images (filled scan.point)
        (fun row member => read.1 row (List.mem_of_mem_take member)) started
      refine ⟨⟨images, fun complete => ?_⟩, by simp⟩
      rw [stageRows_isTableDumped] at complete
      exact absurd (by simpa using complete) before
  | none =>
      obtain ⟨images, absent⟩ :=
        stageRows_images (filled scan.point) read.1 started
      refine ⟨⟨images, fun _ id missing => ?_⟩, fun _ => by simp⟩
      -- The query returned every row, so this one was not there.
      have gone : textAt tm initial history scan.point id = none := by
        cases present : textAt tm initial history scan.point id with
        | none => rfl
        | some text =>
            obtain ⟨row, member, named⟩ := read.2 id text present
            exact absurd named ((absent id missing).2 row member)
      rw [← gone]
      exact ahead_take scan.point

/-- The store after all attempts, at least one of which was not
interrupted. -/
theorem dump_dumped
    {scans : List Scan}
    (filled : ∀ point text, textAt tm initial history point "" ≠ some text)
    (read : ∀ scan ∈ scans, scan.Reads tm initial history)
    (finished : ∃ scan ∈ scans, scan.interrupted = none) :
    Dumped tm initial history (dump tm scans) ∧
      (dump tm scans).isTableDumped tm.sourceTable = true := by
  -- Once the table is complete, further attempts skip it.
  have attempts : ∀ (scans : List Scan) (store : BackfillStore),
      (∀ scan ∈ scans, scan.Reads tm initial history) →
      Dumped tm initial history store →
      (store.isTableDumped tm.sourceTable = true ∨
        ∃ scan ∈ scans, scan.interrupted = none) →
      Dumped tm initial history (scans.foldl (dumpTable tm) store) ∧
        (scans.foldl (dumpTable tm) store).isTableDumped tm.sourceTable =
          true := by
    intro scans
    induction scans with
    | nil =>
        intro store _ dumped finished
        exact ⟨dumped, by simpa using finished⟩
    | cons scan scans inductionHypothesis =>
        intro store read dumped finished
        rw [List.forall_mem_cons] at read
        obtain ⟨next, completed⟩ := dumpTable_dumped filled read.1 dumped
        refine inductionHypothesis _ read.2 next ?_
        rcases finished with already | ⟨last, member, whole⟩
        · left
          unfold dumpTable
          rw [if_pos already]
          exact already
        · rcases List.mem_cons.mp member with rfl | later
          · exact .inl (completed whole)
          · exact .inr ⟨last, later, whole⟩
  refine attempts scans {} read ⟨?_, ?_⟩ (.inr finished)
  · intro id row present
    cases present
  · intro complete
    cases complete

end Dump

/-! ## During the replay -/

section Steps

variable {current : String → Option String}
variable {event : ChangeEvent}
variable {events : List ChangeEvent}
variable {state : Replay}

theorem findMapping_singleton
    {sourceTable : String}
    {other : TableMapping}
    (found : findMapping [tm] sourceTable = some other) :
    other = tm := by
  have member := List.mem_of_find?_eq_some found
  simpa using member

theorem findMapping_self : findMapping [tm] tm.sourceTable = some tm := by
  simp [findMapping]

theorem separate_singleton : Separate [tm] := by
  simp [Separate]

theorem stagedText_markDone
    (store : BackfillStore)
    (id gone : String) :
    stagedText tm (store.markDone tm.sourceTable gone) id =
      if id = gone then none else stagedText tm store id := by
  unfold stagedText
  rw [BackfillStore.lookup_markDone]
  by_cases same : id = gone <;> simp [same]

/-- An event that is dispatched while the store keeps the row as it is.  Only
an insert may be about a staged row: the staged row is then newer. -/
theorem dispatched_ahead
    {id : String}
    {now staged : Option String}
    {sink : Content}
    (single : event.op ≠ .truncate)
    (described : Describes tm id now event)
    (inserted : staged.isSome = true → Concerns tm id event →
      event.op = .insert)
    (ahead : Ahead tm id now (event :: events)
      (staged.or (sink (tm.rowKey id)))) :
    Ahead tm id (textAfter tm id now event) events
      (staged.or (sink.performAll (plan [tm] [event]) (tm.rowKey id))) := by
  cases staged with
  | none =>
      rw [Option.none_or] at ahead ⊢
      exact ahead.dispatch findMapping_self separate_singleton single described
  | some text =>
      rw [Option.some_or] at ahead ⊢
      by_cases about : Concerns tm id event
      · have fresh := (described about).2
        simp only [inserted rfl about] at fresh
        refine ahead.resolve_left ?_
        rw [fresh.1]
        exact Option.some_ne_none _
      · exact ahead.of_same (textAfter_of_not_concerns about)

/-- An event that is merged into a staged row. -/
theorem merged_tracks
    {merged : String}
    {newRow : DecodedRow}
    {row : StoredRow}
    (described : ∀ id, Describes tm id (current id) event)
    (tracks : Tracks tm current (event :: events) state)
    (about : Concerns tm merged event)
    (op : event.op = .update)
    (new : event.newRow = some newRow)
    (staged : state.store.rows.lookup (tm.sourceTable, merged) = some row) :
    Tracks tm (fun id => textAfter tm id (current id) event) events
      { state with
        store := (state.store.updateRowData tm.sourceTable merged
          (mergeKnownColumns row.rowData newRow tm)).1 } := by
  have named : newRow.getColumn tm.idSource = merged := by
    simpa [rowId, op, new] using about.2
  refine ⟨fun id found present => ?_, fun id => ?_⟩
  · rw [BackfillStore.lookup_updateRowData] at present
    split at present <;> rename_i same
    · cases same
      obtain ⟨filled, pending, _⟩ := tracks.waiting merged row staged
      rw [staged] at present
      cases present
      refine ⟨filled, pending, ?_⟩
      rw [columnText_mergeKnownColumns_id (named ▸ filled), named]
    · exact tracks.waiting id found present
  · have ahead := tracks.ahead id
    unfold Replay.image stagedText at ahead ⊢
    rw [BackfillStore.lookup_updateRowData]
    by_cases same : id = merged
    · subst same
      rw [staged] at ahead
      rw [if_pos rfl, staged]
      exact Ahead.merge op new about (described id) ahead
    · rw [if_neg (by simpa using same)]
      exact ahead.of_same (textAfter_of_not_concerns fun other =>
        same (other.2.symm.trans about.2))

/-- Handling an event keeps every image ahead. -/
theorem handleEvent_tracks
    (single : event.op ≠ .truncate)
    (described : ∀ id, Describes tm id (current id) event)
    (tracks : Tracks tm current (event :: events) state) :
    Tracks tm (fun id => textAfter tm id (current id) event) events
      (handleEvent tm state event) := by
  have explained := absorption_explains [tm] event
  unfold handleEvent absorbEvent
  cases kind : absorption [tm] event with
  | unrelated =>
      rw [kind] at explained
      refine ⟨tracks.waiting, fun id => ?_⟩
      refine dispatched_ahead single (described id) ?_ (tracks.ahead id)
      intro staged about
      obtain ⟨row, present⟩ := Option.isSome_iff_exists.mp
        (Option.isSome_map.symm.trans staged)
      exact explained tm id findMapping_self
        (tracks.waiting id row present).1 about
  | removes mapped gone =>
      rw [kind] at explained
      obtain ⟨found, filled, about, op⟩ := explained
      cases findMapping_singleton found
      refine ⟨?_, fun id => ?_⟩
      · intro id row present
        simp only [BackfillStore.lookup_markDone] at present
        split at present
        · cases present
        · exact tracks.waiting id row present
      · simp only [Replay.image, stagedText_markDone, Bool.false_eq_true,
          if_false]
        by_cases same : id = gone
        · subst same
          have after : textAfter tm id (current id) event = none := by
            simp [textAfter, about, op]
          rw [if_pos rfl, Option.none_or, after,
            performAll_plan_of_concerns findMapping_self filled about]
          simp only [dispatchedText, op]
          exact ahead_now
        · rw [if_neg same]
          refine dispatched_ahead single (described id) ?_ (tracks.ahead id)
          intro _ other
          exact absurd (other.2.symm.trans about.2) same
  | merges mapped merged newRow =>
      rw [kind] at explained
      obtain ⟨found, filled, about, op, new⟩ := explained
      cases findMapping_singleton found
      have others : ∀ id, id ≠ merged → ¬Concerns tm id event := by
        intro id different other
        exact different (other.2.symm.trans about.2)
      cases staged : state.store.rows.lookup (tm.sourceTable, merged) with
      | none =>
          simp only [BackfillStore.getRowData, staged, Option.map_none]
          refine ⟨tracks.waiting, fun id => ?_⟩
          refine dispatched_ahead single (described id) ?_ (tracks.ahead id)
          intro present concerned
          by_cases same : id = merged
          · subst same
            simp [stagedText, staged] at present
          · exact absurd concerned (others id same)
      | some row =>
          simp only [BackfillStore.getRowData, staged, Option.map_some,
            if_true]
          exact merged_tracks described tracks about op new staged

/-- Draining a row upserts its staged text. -/
theorem drainRow_of_staged
    {drained : String}
    {rowData : RowData}
    (staged : state.store.rows.lookup (tm.sourceTable, drained) =
      some ⟨rowData, .pending⟩)
    (filled : drained ≠ "")
    (named : columnText rowData tm.idSource = drained)
    (texted : columnText rowData tm.embedSource ≠ "") :
    (drainRow tm state drained).sink =
        state.sink.upsert tm drained (columnText rowData tm.embedSource) ∧
      ∀ id, (drainRow tm state drained).store.rows.lookup
          (tm.sourceTable, id) =
        if id = drained then none
        else state.store.rows.lookup (tm.sourceTable, id) := by
  have waiting : state.store.pendingKeys.contains (tm.sourceTable, drained) :=
    List.contains_iff_mem.mpr
      (BackfillStore.mem_pendingKeys.mpr ⟨rowData, staged⟩)
  have claimed : (state.store.claimPending [(tm.sourceTable, drained)]).1 =
      [⟨tm.sourceTable, drained, rowData⟩] := by
    simp [BackfillStore.claimPending, BackfillStore.getRowData, staged]
  have planned : planEvent [tm]
      (toChangeEvent ⟨tm.sourceTable, drained, rowData⟩) = _ :=
    planEvent_toChangeEvent findMapping_self
  rw [if_neg (by simp [named, filled, texted])] at planned
  unfold drainRow
  simp only [waiting, if_true, claimed, List.map_cons, List.map_nil,
    List.foldl_cons, List.foldl_nil]
  constructor
  · simp only [plan_singleton, planned, Option.toList_some]
    simp [Content.performAll, Content.perform, named]
  · intro id
    rw [BackfillStore.lookup_markDone, BackfillStore.lookup_claimPending]
    by_cases same : id = drained
    · simp [same]
    · simp [same]

/-- Draining a row moves its image from the store to the sink. -/
theorem drainRow_tracks
    (truthful : ∀ id, Truthful tm id (current id) events)
    (filled : ∀ id, ∀ text ∈ current id, text ≠ "")
    (tracks : Tracks tm current events state)
    (drained : String) :
    Tracks tm current events (drainRow tm state drained) ∧
      ∀ id, (drainRow tm state drained).store.rows.lookup
          (tm.sourceTable, id) =
        if id = drained then none
        else state.store.rows.lookup (tm.sourceTable, id) := by
  cases staged : state.store.rows.lookup (tm.sourceTable, drained) with
  | none =>
      have idle : drainRow tm state drained = state := by
        refine if_neg fun waiting => ?_
        obtain ⟨rowData, present⟩ := BackfillStore.mem_pendingKeys.mp
          (List.contains_iff_mem.mp waiting)
        rw [staged] at present
        cases present
      rw [idle]
      refine ⟨tracks, fun id => ?_⟩
      by_cases same : id = drained
      · subst same
        rw [if_pos rfl, staged]
      · rw [if_neg same]
  | some row =>
      obtain ⟨rowData, status⟩ := row
      obtain ⟨nonempty, pending, named⟩ := tracks.waiting drained _ staged
      cases pending
      have ahead := tracks.ahead drained
      have image : state.image tm drained =
          some (columnText rowData tm.embedSource) := by
        simp [Replay.image, stagedText, staged]
      rw [image] at ahead
      obtain ⟨sink, lookup⟩ := drainRow_of_staged staged nonempty named
        (ahead.ne_empty (truthful drained) (filled drained) _ rfl)
      refine ⟨⟨fun id found present => ?_, fun id => ?_⟩, lookup⟩
      · rw [lookup] at present
        split at present
        · cases present
        · exact tracks.waiting id found present
      · unfold Replay.image stagedText
        rw [lookup, sink]
        by_cases same : id = drained
        · subst same
          rw [if_pos rfl, Option.map_none, Option.none_or, Content.upsert,
            Function.update_self]
          exact ahead
        · have key : tm.rowKey id ≠ tm.rowKey drained :=
            fun equal => same (Prod.mk.inj equal).1
          rw [if_neg same, Content.upsert, Function.update_of_ne key]
          exact tracks.ahead id

end Steps

/-! ## Convergence -/

/-- The replay of a schedule that contains exactly the events to come. -/
theorem replay_tracks
    {schedule : List ReplayStep}
    {current : String → Option String}
    {events : List ChangeEvent}
    {state : Replay}
    (replayed : schedule.filterMap ReplayStep.event? = events)
    (single : ∀ event ∈ events, event.op ≠ .truncate)
    (truthful : ∀ id, Truthful tm id (current id) events)
    (filled : ∀ id, ∀ text ∈ current id, text ≠ "")
    (tracks : Tracks tm current events state) :
    Tracks tm (fun id => events.foldl (textAfter tm id) (current id)) []
      (replay tm state schedule) := by
  induction schedule generalizing current events state with
  | nil =>
      subst replayed
      exact tracks
  | cons step schedule inductionHypothesis =>
      cases step with
      | live event =>
          simp only [List.filterMap_cons, ReplayStep.event?] at replayed
          subst replayed
          rw [List.forall_mem_cons] at single
          have next :=
            handleEvent_tracks single.1 (fun id => (truthful id).1) tracks
          have later : ∀ id, ∀ text ∈ textAfter tm id (current id) event,
              text ≠ "" := by
            intro id
            have ahead : Ahead tm id (current id) [event] _ := Or.inr rfl
            exact ahead.ne_empty ⟨(truthful id).1, trivial⟩ (filled id)
          have last := inductionHypothesis rfl single.2
            (fun id => (truthful id).2) later next
          exact last
      | drain drained =>
          simp only [List.filterMap_cons, ReplayStep.event?] at replayed
          exact inductionHypothesis replayed single truthful filled
            (drainRow_tracks truthful filled tracks drained).1

/-- Draining a list of ids leaves none of them staged. -/
theorem foldl_drainRow_tracks
    {ids : List String}
    {current : String → Option String}
    {state : Replay}
    (filled : ∀ id, ∀ text ∈ current id, text ≠ "")
    (tracks : Tracks tm current [] state) :
    Tracks tm current [] (ids.foldl (drainRow tm) state) ∧
      ∀ id, (ids.foldl (drainRow tm) state).store.rows.lookup
          (tm.sourceTable, id) =
        if id ∈ ids then none
        else state.store.rows.lookup (tm.sourceTable, id) := by
  induction ids generalizing state with
  | nil => exact ⟨tracks, fun id => by simp⟩
  | cons drained ids inductionHypothesis =>
      have done : ∀ id, Truthful tm id (current id) [] := fun _ => trivial
      obtain ⟨next, lookup⟩ := drainRow_tracks done filled tracks drained
      obtain ⟨last, remaining⟩ := inductionHypothesis next
      refine ⟨last, fun id => ?_⟩
      rw [List.foldl_cons, remaining, lookup]
      by_cases later : id ∈ ids
      · simp [later]
      · simp [later]

/-- Draining what is left puts the current text of every row in the sink. -/
theorem sink_drainRemaining
    {current : String → Option String}
    {state : Replay}
    (filled : ∀ id, ∀ text ∈ current id, text ≠ "")
    (tracks : Tracks tm current [] state)
    (id : String) :
    (drainRemaining tm state).sink (tm.rowKey id) = current id := by
  obtain ⟨last, lookup⟩ := foldl_drainRow_tracks filled tracks
  have drained : (drainRemaining tm state).store.rows.lookup
      (tm.sourceTable, id) = none := by
    rw [drainRemaining, lookup]
    split <;> rename_i listed
    · rfl
    · cases staged : state.store.rows.lookup (tm.sourceTable, id) with
      | none => rfl
      | some row =>
          obtain ⟨rowData, status⟩ := row
          obtain ⟨_, pending, _⟩ := tracks.waiting id _ staged
          cases pending
          exact absurd (List.mem_map_of_mem
            (BackfillStore.mem_pendingKeys.mpr ⟨rowData, staged⟩)) listed
  have ahead : Ahead tm id (current id) []
      (Replay.image tm (drainRemaining tm state) id) := last.ahead id
  rw [Replay.image, stagedText, drained] at ahead
  exact ahead

/-- No source row ever has an empty id. -/
theorem textAt_empty
    {initial : String → Option String}
    {history : List ChangeEvent}
    (filled : ∀ id text, initial id = some text → id ≠ "" ∧ text ≠ "")
    (truthful : Truthful tm "" (initial "") history)
    (point : Nat)
    (text : String) :
    textAt tm initial history point "" ≠ some text := by
  have unnamed : initial "" = none := by
    cases present : initial "" with
    | none => rfl
    | some text => exact absurd rfl (filled "" text present).1
  have unrelated : ∀ (events : List ChangeEvent) (current : Option String),
      Truthful tm "" current events →
        ∀ event ∈ events, ¬Concerns tm "" event := by
    intro events
    induction events with
    | nil => simp
    | cons event events inductionHypothesis =>
        intro current truthful
        rw [List.forall_mem_cons]
        exact ⟨fun about => (truthful.1 about).1 rfl,
          inductionHypothesis _ truthful.2⟩
  unfold textAt
  rw [foldl_textAfter_of_not_concerns fun event member =>
    unrelated history _ truthful event (List.mem_of_mem_take member), unnamed]
  exact (Option.some_ne_none text).symm

/-- A table, its history after the slot was created, the attempts to dump it
and the replay of the history with the drains in between. -/
structure Unpinned (tm : TableMapping) (initial : String → Option String)
    (history : List ChangeEvent) (scans : List Scan)
    (schedule : List ReplayStep) : Prop where
  filled : ∀ id text, initial id = some text → id ≠ "" ∧ text ≠ ""
  truthful : ∀ id, Truthful tm id (initial id) history
  single : ∀ event ∈ history, event.op ≠ .truncate
  read : ∀ scan ∈ scans, scan.Reads tm initial history
  finished : ∃ scan ∈ scans, scan.interrupted = none
  replayed : schedule.filterMap ReplayStep.event? = history

/-- Whatever the dump read and wherever rows were drained, the sink ends with
the text of every source row. -/
theorem Unpinned.sink_eq
    {initial : String → Option String}
    {history : List ChangeEvent}
    {scans : List Scan}
    {schedule : List ReplayStep}
    (unpinned : Unpinned tm initial history scans schedule)
    (id : String) :
    (drainRemaining tm
        (replay tm { store := dump tm scans, sink := fun _ => none }
          schedule)).sink (tm.rowKey id) =
      history.foldl (textAfter tm id) (initial id) := by
  have texts : ∀ id, ∀ text ∈ initial id, text ≠ "" :=
    fun id text present => (unpinned.filled id text present).2
  obtain ⟨dumped, complete⟩ :=
    dump_dumped (textAt_empty unpinned.filled (unpinned.truthful ""))
      unpinned.read unpinned.finished
  have start : Tracks tm initial history
      { store := dump tm scans, sink := fun _ => none } := by
    refine ⟨fun id row staged => ?_, fun id => ?_⟩
    · have image := dumped.images id row staged
      exact ⟨image.filled, image.pending, image.named⟩
    · unfold Replay.image stagedText
      cases staged : (dump tm scans).rows.lookup (tm.sourceTable, id) with
      | none => exact dumped.complete complete id staged
      | some row => exact (dumped.images id row staged).ahead
  have tracks := replay_tracks unpinned.replayed unpinned.single
    unpinned.truthful texts start
  have ends : ∀ id, ∀ text ∈ history.foldl (textAfter tm id) (initial id),
      text ≠ "" := by
    intro id
    have last : Ahead tm id (initial id) history _ :=
      ahead_take history.length
    rw [List.take_length] at last
    exact last.ne_empty (unpinned.truthful id) (texts id)
  exact sink_drainRemaining ends tracks id

end Backfill
end Walkrie
