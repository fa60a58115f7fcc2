import Walkrie.Library.Transition
import Walkrie.Backfill.Reconcile

/-!
# Live streaming concurrent with the drain

Once streaming has started, three parties share the store and the sink: the
replication thread, which absorbs or posts each event; the dispatcher, which
takes events from the queue and writes them; and the worker, a process of its
own, which claims rows, writes them and removes them.  A step is one SQL
statement, one write to the sink, or one operation on the queue.
-/

namespace Walkrie
namespace Backfill

open Sink Transition

/-- Where the replication thread stands with the event it handles. -/
inductive Intake
  | idle
  /-- The row was found in the store; the merged object is not yet written. -/
  | merging (sourceTable rowId : String) (merged : RowData)
  /-- The event was not absorbed and is on its way to the queue. -/
  | posting (event : ChangeEvent)

/-- Where the worker stands in its loop. -/
inductive Worker
  | idle
  /-- Writes still to be made for the claimed rows, then rows still to be
  removed. -/
  | working (batch : List BatchEvent) (claimed : List ClaimedRow)
  | finished

/-- The parties, the store and sink they share, and the live events that have
not arrived yet. -/
structure State where
  stream : List ChangeEvent
  store : BackfillStore
  intake : Intake := .idle
  queue : List ChangeEvent := []
  /-- Writes the dispatcher has planned and not yet made. -/
  batch : List BatchEvent := []
  worker : Worker := .idle
  sink : Content := fun _ => none

inductive Label
  /-- The next event arrives: `absorb_event` up to its first statement. -/
  | receive
  /-- `update_row_data` of an update that found its row. -/
  | merge
  /-- The event reaches the queue. -/
  | post
  /-- The dispatcher takes a batch from the queue. -/
  | take (count : Nat)
  /-- The dispatcher makes its next write. -/
  | write
  /-- `claim_pending`, with the rows its subquery returns. -/
  | claim (selected : List (String × String))
  /-- The worker makes its next write. -/
  | workerWrite
  /-- The worker removes the next claimed row. -/
  | markDone

/-- The mappings of the source and of the sink, and `claim_batch_size`. -/
structure Setup where
  mappings : List TableMapping
  claimBatchSize : Nat := 200

/-- `absorb_event` up to its first statement, and what is left to do. -/
def receive (setup : Setup) (state : State) (event : ChangeEvent)
    (stream : List ChangeEvent) : State :=
  match absorption setup.mappings event with
  | .unrelated => { state with stream, intake := .posting event }
  | .removes tm rowId =>
      { state with
        stream
        store := state.store.markDone tm.sourceTable rowId
        intake := .posting event }
  | .merges tm rowId newRow =>
      match state.store.getRowData tm.sourceTable rowId with
      | none => { state with stream, intake := .posting event }
      | some existing =>
          { state with
            stream
            intake := .merging tm.sourceTable rowId
              (mergeKnownColumns existing newRow tm) }

def step (setup : Setup) (state : State) : Label → Option State
  | .receive =>
      match state.intake, state.stream with
      | .idle, event :: stream => some (receive setup state event stream)
      | _, _ => none
  | .merge =>
      match state.intake with
      | .merging sourceTable rowId merged =>
          some { state with
            store := (state.store.updateRowData sourceTable rowId merged).1
            intake := .idle }
      | _ => none
  | .post =>
      match state.intake with
      | .posting event =>
          some { state with queue := state.queue ++ [event], intake := .idle }
      | _ => none
  | .take count =>
      if state.batch.isEmpty then
        some { state with
          queue := state.queue.drop count
          batch := plan setup.mappings (state.queue.take count) }
      else none
  | .write =>
      match state.batch with
      | action :: batch =>
          some { state with batch, sink := state.sink.perform action }
      | [] => none
  | .claim selected =>
      match state.worker with
      | .idle =>
          if state.store.Selects setup.claimBatchSize selected then
            if selected.isEmpty then some { state with worker := .finished }
            else
              let (claimed, store) := state.store.claimPending selected
              some { state with
                store
                worker := .working
                  (plan setup.mappings (claimed.map toChangeEvent)) claimed }
          else none
      | _ => none
  | .workerWrite =>
      match state.worker with
      | .working (action :: batch) claimed =>
          some { state with
            worker := .working batch claimed
            sink := state.sink.perform action }
      | _ => none
  | .markDone =>
      match state.worker with
      | .working [] (row :: claimed) =>
          some { state with
            store := state.store.markDone row.sourceTable row.rowId
            worker := if claimed.isEmpty then .idle else .working [] claimed }
      | _ => none

/-- Taken without a pause, the steps that handle an event are
`absorb_event`, followed by the queue unless the event was absorbed. -/
theorem run_absorbEvent
    (setup : Setup)
    (state : State)
    (event : ChangeEvent)
    (stream : List ChangeEvent)
    (idle : state.intake = .idle)
    (arrived : state.stream = event :: stream) :
    let (store, absorbed) := absorbEvent setup.mappings state.store event
    run (step setup) state
        [.receive, if absorbed then .merge else .post] =
      some { state with
        stream
        store
        queue := if absorbed then state.queue else state.queue ++ [event] } := by
  unfold absorbEvent
  cases kind : absorption setup.mappings event with
  | unrelated => simp [run, step, idle, arrived, receive, kind]
  | removes tm rowId => simp [run, step, idle, arrived, receive, kind]
  | merges tm rowId newRow =>
      cases found : state.store.getRowData tm.sourceTable rowId with
      | none => simp [run, step, idle, arrived, receive, kind, found]
      | some existing =>
          simp [run, step, idle, arrived, receive, kind, found]

/-- Nothing is under way: all events have arrived and been written, and the
worker has found no more rows. -/
structure Quiescent (state : State) : Prop where
  stream : state.stream = []
  intake : state.intake = .idle
  queue : state.queue = []
  batch : state.batch = []
  worker : state.worker = .finished

/-- The stored object of a row shows the row's id. -/
def Labelled (mappings : List TableMapping) (key : String × String)
    (rowData : RowData) : Prop :=
  ∀ tm, findMapping mappings key.1 = some tm →
    columnText rowData tm.idSource = key.2

/-- Streaming starts: nothing is under way, and the stored object of every row
shows the row's id. -/
structure Starts (setup : Setup) (state : State) : Prop where
  intake : state.intake = .idle
  queue : state.queue = []
  batch : state.batch = []
  worker : state.worker = .idle
  labelled : ∀ key row, state.store.rows.lookup key = some row →
    Labelled setup.mappings key row.rowData

/-- Streaming starts, and rows of the sink with this mapping's key come from
the mapped table only. -/
structure MappedRow (setup : Setup) (tm : TableMapping) (id : String)
    (start : State) : Prop where
  found : findMapping setup.mappings tm.sourceTable = some tm
  separate : Separate setup.mappings
  starts : Starts setup start
  named : id ≠ ""

/-- The last event about the row. -/
def LastAbout (tm : TableMapping) (id : String) (events : List ChangeEvent)
    (event : ChangeEvent) : Prop :=
  ∃ before after, events = before ++ event :: after ∧
    Concerns tm id event ∧ ∀ other ∈ after, ¬Concerns tm id other

/-- What the dump stages of a row shows the row's id. -/
theorem stageRow_labelled
    {mappings : List TableMapping}
    {tm : TableMapping}
    (found : findMapping mappings tm.sourceTable = some tm)
    {store : BackfillStore}
    (labelled : ∀ key stored, store.rows.lookup key = some stored →
      Labelled mappings key stored.rowData)
    (row : SourceRow) :
    ∀ key stored,
      (stageRow tm store (row.fields tm)).rows.lookup key = some stored →
        Labelled mappings key stored.rowData := by
  obtain ⟨named, columns⟩ := dumpRow_fields tm row
  intro key stored present
  unfold stageRow at present
  simp only [named] at present
  cases value : row tm.idSource with
  | none =>
      simp only [value, Option.getD_none, if_true] at present
      exact labelled key stored present
  | some rowId =>
      simp only [value, Option.getD_some] at present
      split at present
      · exact labelled key stored present
      rw [BackfillStore.lookup_insertRow] at present
      split at present <;> rename_i same
      · subst same
        cases before : store.rows.lookup (tm.sourceTable, rowId) with
        | some existing =>
            rw [before] at present
            cases present
            exact labelled _ existing before
        | none =>
            rw [before] at present
            cases present
            intro mapping mapped
            cases found.symm.trans mapped
            simp [columnText, columns tm.idSource (by simp [selectColumns]),
              value]
      · exact labelled key stored present

theorem stageRows_labelled
    {mappings : List TableMapping}
    {tm : TableMapping}
    (found : findMapping mappings tm.sourceTable = some tm)
    (rows : List SourceRow)
    {store : BackfillStore}
    (labelled : ∀ key stored, store.rows.lookup key = some stored →
      Labelled mappings key stored.rowData) :
    ∀ key stored,
      (rows.foldl (fun store row => stageRow tm store (row.fields tm))
        store).rows.lookup key = some stored →
        Labelled mappings key stored.rowData := by
  induction rows generalizing store with
  | nil => exact labelled
  | cons row rows inductionHypothesis =>
      exact inductionHypothesis (stageRow_labelled found labelled row)

/-- Whether nothing is under way, as a test. -/
def State.isQuiescent (state : State) : Bool :=
  state.stream.isEmpty && state.queue.isEmpty && state.batch.isEmpty &&
    match state.intake, state.worker with
    | .idle, .finished => true
    | _, _ => false

theorem quiescent_of_isQuiescent
    {state : State}
    (quiescent : state.isQuiescent = true) :
    Quiescent state := by
  unfold State.isQuiescent at quiescent
  simp only [Bool.and_eq_true, List.isEmpty_iff] at quiescent
  obtain ⟨⟨⟨stream, queue⟩, batch⟩, parties⟩ := quiescent
  split at parties <;> rename_i intake worker
  · exact ⟨stream, intake, queue, batch, worker⟩
  · cases parties

/-! ## What a step can do -/

/-- The steps, one constructor for each way a label can be taken. -/
inductive Moves (setup : Setup) (state : State) : Label → State → Prop
  | pass
      (event : ChangeEvent)
      (stream : List ChangeEvent)
      (idle : state.intake = .idle)
      (next : state.stream = event :: stream)
      (unrelated : absorption setup.mappings event = .unrelated) :
      Moves setup state .receive
        { state with stream, intake := .posting event }
  | remove
      (event : ChangeEvent)
      (stream : List ChangeEvent)
      (tm : TableMapping)
      (rowId : String)
      (idle : state.intake = .idle)
      (next : state.stream = event :: stream)
      (removes : absorption setup.mappings event = .removes tm rowId) :
      Moves setup state .receive
        { state with
          stream
          store := state.store.markDone tm.sourceTable rowId
          intake := .posting event }
  | miss
      (event : ChangeEvent)
      (stream : List ChangeEvent)
      (tm : TableMapping)
      (rowId : String)
      (newRow : DecodedRow)
      (idle : state.intake = .idle)
      (next : state.stream = event :: stream)
      (merges : absorption setup.mappings event = .merges tm rowId newRow)
      (absent : state.store.rows.lookup (tm.sourceTable, rowId) = none) :
      Moves setup state .receive
        { state with stream, intake := .posting event }
  | find
      (event : ChangeEvent)
      (stream : List ChangeEvent)
      (tm : TableMapping)
      (rowId : String)
      (newRow : DecodedRow)
      (row : StoredRow)
      (idle : state.intake = .idle)
      (next : state.stream = event :: stream)
      (merges : absorption setup.mappings event = .merges tm rowId newRow)
      (present : state.store.rows.lookup (tm.sourceTable, rowId) = some row) :
      Moves setup state .receive
        { state with
          stream
          intake := .merging tm.sourceTable rowId
            (mergeKnownColumns row.rowData newRow tm) }
  | merge
      (sourceTable rowId : String)
      (merged : RowData)
      (merging : state.intake = .merging sourceTable rowId merged) :
      Moves setup state .merge
        { state with
          store := (state.store.updateRowData sourceTable rowId merged).1
          intake := .idle }
  | post
      (event : ChangeEvent)
      (posting : state.intake = .posting event) :
      Moves setup state .post
        { state with queue := state.queue ++ [event], intake := .idle }
  | take
      (count : Nat)
      (done : state.batch = []) :
      Moves setup state (.take count)
        { state with
          queue := state.queue.drop count
          batch := plan setup.mappings (state.queue.take count) }
  | write
      (action : BatchEvent)
      (batch : List BatchEvent)
      (planned : state.batch = action :: batch) :
      Moves setup state .write
        { state with batch, sink := state.sink.perform action }
  | finish
      (idle : state.worker = .idle)
      (selects : state.store.Selects setup.claimBatchSize []) :
      Moves setup state (.claim []) { state with worker := .finished }
  | claim
      (selected : List (String × String))
      (idle : state.worker = .idle)
      (selects : state.store.Selects setup.claimBatchSize selected)
      (nonempty : selected ≠ []) :
      Moves setup state (.claim selected)
        { state with
          store := (state.store.claimPending selected).2
          worker := .working
            (plan setup.mappings
              ((state.store.claimPending selected).1.map toChangeEvent))
            (state.store.claimPending selected).1 }
  | workerWrite
      (action : BatchEvent)
      (batch : List BatchEvent)
      (claimed : List ClaimedRow)
      (working : state.worker = .working (action :: batch) claimed) :
      Moves setup state .workerWrite
        { state with
          worker := .working batch claimed
          sink := state.sink.perform action }
  | markDone
      (row : ClaimedRow)
      (claimed : List ClaimedRow)
      (working : state.worker = .working [] (row :: claimed)) :
      Moves setup state .markDone
        { state with
          store := state.store.markDone row.sourceTable row.rowId
          worker := if claimed.isEmpty then .idle else .working [] claimed }

theorem moves_of_step
    {setup : Setup}
    {state next : State}
    {label : Label}
    (taken : step setup state label = some next) :
    Moves setup state label next := by
  cases label with
  | receive =>
      simp only [step] at taken
      split at taken
      · rename_i event stream idle arrived
        cases taken
        unfold receive
        cases kind : absorption setup.mappings event with
        | unrelated => exact .pass event stream idle arrived kind
        | removes tm rowId =>
            exact .remove event stream tm rowId idle arrived kind
        | merges tm rowId newRow =>
            simp only [BackfillStore.getRowData]
            cases found :
                state.store.rows.lookup (tm.sourceTable, rowId) with
            | none =>
                exact .miss event stream tm rowId newRow idle arrived kind
                  found
            | some row =>
                exact .find event stream tm rowId newRow row idle arrived kind
                  found
      · cases taken
  | merge =>
      simp only [step] at taken
      split at taken
      · rename_i sourceTable rowId merged merging
        cases taken
        exact .merge sourceTable rowId merged merging
      · cases taken
  | post =>
      simp only [step] at taken
      split at taken
      · rename_i event posting
        cases taken
        exact .post event posting
      · cases taken
  | take count =>
      simp only [step, List.isEmpty_iff, Option.ite_none_right_eq_some,
        Option.some_inj] at taken
      obtain ⟨done, rfl⟩ := taken
      exact .take count done
  | write =>
      simp only [step] at taken
      split at taken
      · rename_i action batch planned
        cases taken
        exact .write action batch planned
      · cases taken
  | claim selected =>
      simp only [step] at taken
      split at taken
      · rename_i idle
        rw [Option.ite_none_right_eq_some] at taken
        obtain ⟨selects, taken⟩ := taken
        split at taken <;> rename_i nothing
        · cases List.isEmpty_iff.mp nothing
          cases taken
          exact .finish idle selects
        · cases taken
          exact .claim selected idle selects (by simpa using nothing)
      · cases taken
  | workerWrite =>
      simp only [step] at taken
      split at taken
      · rename_i action batch claimed working
        cases taken
        exact .workerWrite action batch claimed working
      · cases taken
  | markDone =>
      simp only [step] at taken
      split at taken
      · rename_i row claimed working
        cases taken
        exact .markDone row claimed working
      · cases taken

/-- Events arrive one at a time, in order. -/
theorem Moves.stream_eq
    {setup : Setup}
    {state next : State}
    {label : Label}
    (moves : Moves setup state label next) :
    next.stream = state.stream ∨
      label = .receive ∧ ∃ event, state.stream = event :: next.stream := by
  cases moves with
  | pass event _ _ arrived | remove event _ _ _ _ arrived
  | miss event _ _ _ _ _ arrived | find event _ _ _ _ _ _ arrived =>
      exact .inr ⟨rfl, event, arrived⟩
  | merge | post | take | write | finish | claim | workerWrite | markDone =>
      exact .inl rfl

/-! ## What an arrival means for one row -/

/-- The ways an event can arrive, as one row of a mapped table sees them. -/
inductive Arrival (setup : Setup) (tm : TableMapping) (id : String)
    (state : State) (event : ChangeEvent) : State → Prop
  /-- An event about another row is handed over. -/
  | passed
      (stream : List ChangeEvent)
      (store : BackfillStore)
      (unrelated : ¬Concerns tm id event)
      (row : store.rows.lookup (tm.sourceTable, id) =
        state.store.rows.lookup (tm.sourceTable, id)) :
      Arrival setup tm id state event
        { state with stream, store, intake := .posting event }
  /-- An update of another row finds it in the store. -/
  | foundOther
      (stream : List ChangeEvent)
      (sourceTable rowId : String)
      (merged : RowData)
      (unrelated : ¬Concerns tm id event)
      (other : (sourceTable, rowId) ≠ (tm.sourceTable, id)) :
      Arrival setup tm id state event
        { state with stream, intake := .merging sourceTable rowId merged }
  | inserted
      (stream : List ChangeEvent)
      (about : Concerns tm id event)
      (op : event.op = .insert) :
      Arrival setup tm id state event
        { state with stream, intake := .posting event }
  | deleted
      (stream : List ChangeEvent)
      (about : Concerns tm id event)
      (op : event.op = .delete) :
      Arrival setup tm id state event
        { state with
          stream
          store := state.store.markDone tm.sourceTable id
          intake := .posting event }
  /-- An update of the row finds it gone and is handed over. -/
  | missed
      (stream : List ChangeEvent)
      (about : Concerns tm id event)
      (op : event.op = .update)
      (gone : state.store.rows.lookup (tm.sourceTable, id) = none) :
      Arrival setup tm id state event
        { state with stream, intake := .posting event }
  /-- An update of the row finds it in the store. -/
  | foundSelf
      (stream : List ChangeEvent)
      (newRow : DecodedRow)
      (row : StoredRow)
      (about : Concerns tm id event)
      (op : event.op = .update)
      (new : event.newRow = some newRow)
      (merges : absorption setup.mappings event = .merges tm id newRow)
      (present : state.store.rows.lookup (tm.sourceTable, id) = some row) :
      Arrival setup tm id state event
        { state with
          stream
          intake := .merging tm.sourceTable id
            (mergeKnownColumns row.rowData newRow tm) }

theorem arrival_of_moves
    {setup : Setup}
    {state next : State}
    {tm : TableMapping}
    {id : String}
    (found : findMapping setup.mappings tm.sourceTable = some tm)
    (named : id ≠ "")
    (moves : Moves setup state .receive next) :
    state.intake = .idle ∧
      ∃ event, state.stream = event :: next.stream ∧
        Arrival setup tm id state event next := by
  cases moves with
  | pass event stream idle arrived unrelated =>
      have explained := absorption_explains setup.mappings event
      rw [unrelated] at explained
      refine ⟨idle, event, arrived, ?_⟩
      by_cases about : Concerns tm id event
      · exact .inserted stream about (explained tm id found named about)
      · exact .passed stream state.store about rfl
  | remove event stream mapped rowId idle arrived removes =>
      have explained := absorption_explains setup.mappings event
      rw [removes] at explained
      obtain ⟨known, _, removed, op⟩ := explained
      refine ⟨idle, event, arrived, ?_⟩
      by_cases about : Concerns tm id event
      · cases removed.mapping_eq known found about
        cases removed.2.symm.trans about.2
        exact .deleted stream about op
      · refine .passed stream _ about ?_
        rw [BackfillStore.lookup_markDone, if_neg]
        exact fun same => about (removed.of_key known found same)
  | miss event stream mapped rowId newRow idle arrived merges absent =>
      have explained := absorption_explains setup.mappings event
      rw [merges] at explained
      obtain ⟨known, _, merged, op, _⟩ := explained
      refine ⟨idle, event, arrived, ?_⟩
      by_cases about : Concerns tm id event
      · rw [merged.key_eq known found about] at absent
        exact .missed stream about op absent
      · exact .passed stream state.store about rfl
  | find event stream mapped rowId newRow row idle arrived merges present =>
      have explained := absorption_explains setup.mappings event
      rw [merges] at explained
      obtain ⟨known, _, merged, op, new⟩ := explained
      refine ⟨idle, event, arrived, ?_⟩
      by_cases about : Concerns tm id event
      · cases merged.mapping_eq known found about
        cases merged.2.symm.trans about.2
        exact .foundSelf stream newRow row about op new merges present
      · refine .foundOther stream _ _ _ about ?_
        exact fun same => about (merged.of_key known found same.symm)

/-! ## Rows keep their id -/

/-- Every stored object, and the one about to be stored, shows its row's
id. -/
structure AllLabelled (setup : Setup) (state : State) : Prop where
  stored : ∀ key row, state.store.rows.lookup key = some row →
    Labelled setup.mappings key row.rowData
  merging : ∀ sourceTable rowId merged,
    state.intake = .merging sourceTable rowId merged →
      Labelled setup.mappings (sourceTable, rowId) merged

theorem Starts.allLabelled
    {setup : Setup}
    {state : State}
    (starts : Starts setup state) :
    AllLabelled setup state :=
  ⟨starts.labelled, by simp [starts.intake]⟩

theorem step_allLabelled
    {setup : Setup}
    {state next : State}
    {label : Label}
    (labelled : AllLabelled setup state)
    (taken : step setup state label = some next) :
    AllLabelled setup next := by
  have removed : ∀ sourceTable rowId key row,
      (state.store.markDone sourceTable rowId).rows.lookup key = some row →
        Labelled setup.mappings key row.rowData := by
    intro sourceTable rowId key row present
    rw [BackfillStore.lookup_markDone] at present
    split at present
    · cases present
    · exact labelled.stored key row present
  cases moves_of_step taken with
  | pass event stream _ _ _ => exact ⟨labelled.stored, by simp⟩
  | remove event stream tm rowId _ _ _ => exact ⟨removed _ _, by simp⟩
  | miss event stream tm rowId newRow _ _ _ _ =>
      exact ⟨labelled.stored, by simp⟩
  | find event stream tm rowId newRow row _ _ merges _ =>
      refine ⟨labelled.stored, ?_⟩
      intro sourceTable other merged merging mapping found
      cases merging
      have explained := absorption_explains setup.mappings event
      rw [merges] at explained
      obtain ⟨mapped, filled, about, op, new⟩ := explained
      cases mapped.symm.trans found
      have named : newRow.getColumn tm.idSource = rowId := by
        simpa [Backfill.rowId, op, new] using about.2
      rw [columnText_mergeKnownColumns_id (named ▸ filled), named]
  | merge sourceTable rowId merged merging =>
      refine ⟨?_, by simp⟩
      intro key row present
      rw [BackfillStore.lookup_updateRowData] at present
      split at present <;> rename_i same
      · obtain ⟨_, _, rfl⟩ := Option.map_eq_some_iff.mp present
        rw [same]
        exact labelled.merging sourceTable rowId merged merging
      · exact labelled.stored key row present
  | post event _ => exact ⟨labelled.stored, by simp⟩
  | take count _ => exact ⟨labelled.stored, labelled.merging⟩
  | write action batch _ => exact ⟨labelled.stored, labelled.merging⟩
  | finish _ _ => exact ⟨labelled.stored, labelled.merging⟩
  | claim selected _ _ _ =>
      refine ⟨?_, labelled.merging⟩
      intro key row present
      rw [BackfillStore.lookup_claimPending] at present
      obtain ⟨before, found, rfl⟩ := Option.map_eq_some_iff.mp present
      have kept := labelled.stored key before found
      split <;> exact kept
  | workerWrite action batch claimed _ =>
      exact ⟨labelled.stored, labelled.merging⟩
  | markDone row claimed _ => exact ⟨removed _ _, labelled.merging⟩

/-! ## Rows the worker leaves behind -/

/-- During streaming no row starts waiting. -/
theorem step_pendingKeys
    {setup : Setup}
    {state next : State}
    {label : Label}
    (taken : step setup state label = some next) :
    ∀ key ∈ next.store.pendingKeys, key ∈ state.store.pendingKeys := by
  have removed : ∀ sourceTable rowId,
      ∀ key ∈ (state.store.markDone sourceTable rowId).pendingKeys,
        key ∈ state.store.pendingKeys := by
    intro sourceTable rowId key waiting
    obtain ⟨rowData, present⟩ := BackfillStore.mem_pendingKeys.mp waiting
    rw [BackfillStore.lookup_markDone] at present
    split at present
    · cases present
    · exact BackfillStore.mem_pendingKeys.mpr ⟨rowData, present⟩
  intro key waiting
  cases moves_of_step taken with
  | remove event stream tm rowId _ _ _ => exact removed _ _ key waiting
  | markDone row claimed _ => exact removed _ _ key waiting
  | merge sourceTable rowId merged _ =>
      obtain ⟨rowData, present⟩ := BackfillStore.mem_pendingKeys.mp waiting
      rw [BackfillStore.lookup_updateRowData] at present
      split at present <;> rename_i same
      · obtain ⟨⟨before, status⟩, found, changed⟩ :=
          Option.map_eq_some_iff.mp present
        cases changed
        rw [same]
        exact BackfillStore.mem_pendingKeys.mpr ⟨before, found⟩
      · exact BackfillStore.mem_pendingKeys.mpr ⟨rowData, present⟩
  | claim selected _ _ _ =>
      obtain ⟨rowData, present⟩ := BackfillStore.mem_pendingKeys.mp waiting
      rw [BackfillStore.lookup_claimPending] at present
      obtain ⟨row, found, changed⟩ := Option.map_eq_some_iff.mp present
      split at changed
      · cases changed
      · cases changed
        exact BackfillStore.mem_pendingKeys.mpr ⟨rowData, found⟩
  | pass | miss | find | post | take | write | finish | workerWrite =>
      exact waiting

/-- A worker that has finished has left no row waiting. -/
def Exhausted (state : State) : Prop :=
  state.worker = .finished → state.store.pendingKeys = []

theorem step_exhausted
    {setup : Setup}
    {state next : State}
    {label : Label}
    (positive : 0 < setup.claimBatchSize)
    (exhausted : Exhausted state)
    (taken : step setup state label = some next) :
    Exhausted next := by
  have fewer := step_pendingKeys taken
  have kept : state.worker = .finished → next.store.pendingKeys = [] := by
    intro finished
    rw [exhausted finished] at fewer
    exact List.eq_nil_iff_forall_not_mem.mpr fun key waiting =>
      List.not_mem_nil (fewer key waiting)
  intro finished
  cases moves_of_step taken with
  | finish _ selects =>
      have waiting : state.store.pendingKeys.length = 0 := by
        have size := selects.2.2
        simp only [List.length_nil] at size
        omega
      exact List.eq_nil_of_length_eq_zero waiting
  | claim | workerWrite => cases finished
  | markDone row claimed working =>
      cases claimed <;> cases finished
  | pass | remove | miss | find | merge | post | take | write =>
      exact kept finished

/-! ## Writes under way -/

/-- Events handed over but not yet in the queue. -/
def Intake.posted : Intake → List ChangeEvent
  | .posting event => [event]
  | .idle | .merging _ _ _ => []

/-- The row an update is being merged into. -/
def Intake.target? : Intake → Option (String × String)
  | .merging sourceTable rowId _ => some (sourceTable, rowId)
  | .idle | .posting _ => none

/-- Writes the worker has planned and not yet made. -/
def Worker.batch : Worker → List BatchEvent
  | .working batch _ => batch
  | .idle | .finished => []

/-- Rows the worker has claimed and not yet removed. -/
def Worker.claimed : Worker → List (String × String)
  | .working _ claimed => claimed.map fun row => (row.sourceTable, row.rowId)
  | .idle | .finished => []

/-- Writes the dispatcher will make for the events handed over so far. -/
def State.inFlight (setup : Setup) (state : State) : List BatchEvent :=
  state.batch ++ plan setup.mappings (state.queue ++ state.intake.posted)

theorem plan_append
    (mappings : List TableMapping)
    (events later : List ChangeEvent) :
    plan mappings (events ++ later) =
      plan mappings events ++ plan mappings later :=
  List.filterMap_append

/-- Taking a batch plans the writes that were to be planned anyway. -/
theorem inFlight_take
    {setup : Setup}
    {state : State}
    (done : state.batch = [])
    (count : Nat) :
    State.inFlight setup
        { state with
          queue := state.queue.drop count
          batch := plan setup.mappings (state.queue.take count) } =
      state.inFlight setup ++ [] := by
  simp only [State.inFlight, done, List.nil_append, List.append_nil]
  rw [← plan_append, ← List.append_assoc, List.take_append_drop]

/-- Handing over an event plans its writes last. -/
theorem inFlight_posting
    {setup : Setup}
    {state : State}
    (idle : state.intake = .idle)
    (event : ChangeEvent)
    (stream : List ChangeEvent)
    (store : BackfillStore) :
    State.inFlight setup
        { state with stream, store, intake := .posting event } =
      state.inFlight setup ++ plan setup.mappings [event] := by
  simp [State.inFlight, Intake.posted, idle, plan_append]

/-- With nothing under way no write is on its way. -/
theorem inFlight_of_quiescent
    {setup : Setup}
    {state : State}
    (quiescent : Quiescent state) :
    state.inFlight setup = [] := by
  simp [State.inFlight, quiescent.batch, quiescent.queue, quiescent.intake,
    Intake.posted, plan]

/-- Rows that are not in the store are not claimed. -/
theorem not_mem_selected
    {store : BackfillStore}
    {limit : Nat}
    {selected : List (String × String)}
    {key : String × String}
    (selects : store.Selects limit selected)
    (absent : store.rows.lookup key = none) :
    key ∉ selected := by
  intro chosen
  obtain ⟨rowData, present⟩ :=
    BackfillStore.mem_pendingKeys.mp (selects.2.1 _ chosen)
  cases present.symm.trans absent

section Claimed

variable {setup : Setup}
variable {state : State}
variable {tm : TableMapping}
variable {id : String}

/-- The key of a claimed row is one of those selected. -/
theorem mem_claimed
    {selected : List (String × String)}
    {row : ClaimedRow}
    (member : row ∈ (state.store.claimPending selected).1) :
    (row.sourceTable, row.rowId) ∈ selected ∧
      ∃ stored, state.store.rows.lookup (row.sourceTable, row.rowId) =
        some stored ∧ stored.rowData = row.rowData := by
  obtain ⟨chosen, found⟩ := BackfillStore.mem_claimPending.mp member
  obtain ⟨stored, present, same⟩ := Option.map_eq_some_iff.mp found
  exact ⟨chosen, stored, present, same⟩

/-- The worker holds the rows it selected. -/
theorem mem_claimed_iff
    {selected : List (String × String)}
    {row : StoredRow}
    (present : state.store.rows.lookup (tm.sourceTable, id) = some row)
    (batch : List BatchEvent) :
    (tm.sourceTable, id) ∈
        (Worker.working batch (state.store.claimPending selected).1).claimed ↔
      (tm.sourceTable, id) ∈ selected := by
  constructor
  · intro held
    obtain ⟨other, member, same⟩ := List.mem_map.mp held
    rw [← same]
    exact (mem_claimed member).1
  · intro chosen
    refine List.mem_map.mpr ⟨⟨tm.sourceTable, id, row.rowData⟩, ?_, rfl⟩
    rw [BackfillStore.mem_claimPending]
    exact ⟨chosen, by simp [BackfillStore.getRowData, present]⟩

/-- A write of the dispatcher is the first of those under way. -/
theorem inFlight_write
    {action : BatchEvent}
    {batch : List BatchEvent}
    (planned : state.batch = action :: batch) :
    state.inFlight setup = action :: State.inFlight setup
      { state with batch, sink := state.sink.perform action } := by
  simp [State.inFlight, planned]

/-- A write of the worker is the first of its batch, and ends no hold. -/
theorem worker_write
    {action : BatchEvent}
    {batch : List BatchEvent}
    {rows : List ClaimedRow}
    (working : state.worker = .working (action :: batch) rows) :
    state.worker.batch = action :: batch ∧
      state.worker.claimed = (Worker.working batch rows).claimed := by
  rw [working]
  exact ⟨rfl, rfl⟩

/-- Removing a row ends the worker's hold on it. -/
theorem worker_markDone
    {done : ClaimedRow}
    {rows : List ClaimedRow}
    (working : state.worker = .working [] (done :: rows)) :
    (if rows.isEmpty then Worker.idle else .working [] rows).batch = [] ∧
      state.worker.claimed = (done.sourceTable, done.rowId) ::
        (if rows.isEmpty then Worker.idle else .working [] rows).claimed := by
  rw [working]
  cases rows <;> exact ⟨rfl, rfl⟩

/-- A claimed row is rehydrated as an event about itself. -/
theorem concerns_toChangeEvent
    (found : findMapping setup.mappings tm.sourceTable = some tm)
    (labelled : AllLabelled setup state)
    {selected : List (String × String)}
    {row : ClaimedRow}
    (member : row ∈ (state.store.claimPending selected).1)
    (about : Concerns tm id (toChangeEvent row)) :
    (tm.sourceTable, id) = (row.sourceTable, row.rowId) := by
  obtain ⟨_, stored, present, same⟩ := mem_claimed member
  obtain ⟨table, named⟩ := about
  have table : row.sourceTable = tm.sourceTable := table
  have shown := labelled.stored _ stored present tm (by rw [table]; exact found)
  rw [same] at shown
  have read : columnText row.rowData tm.idSource = id := by
    simpa [rowId, toChangeEvent] using named
  rw [table, ← read, shown]

/-- The worker's writes leave a row alone that it has not claimed. -/
theorem plan_claimed_not_touches
    (found : findMapping setup.mappings tm.sourceTable = some tm)
    (separate : Separate setup.mappings)
    (labelled : AllLabelled setup state)
    {selected : List (String × String)}
    (spared : (tm.sourceTable, id) ∉ selected) :
    ∀ action ∈ plan setup.mappings
        ((state.store.claimPending selected).1.map toChangeEvent),
      ¬action.Touches (tm.rowKey id) := by
  intro action member
  obtain ⟨event, among, planned⟩ := List.mem_filterMap.mp member
  obtain ⟨row, claimed, rfl⟩ := List.mem_map.mp among
  refine not_touches_of_not_concerns found separate planned
    (by simp [toChangeEvent]) ?_
  intro about
  rw [concerns_toChangeEvent found labelled claimed about] at spared
  exact spared (mem_claimed claimed).1

end Claimed

/-! ## A store of notes -/

/-- A store in which the given notes wait. -/
def stagedNotes (rows : List SourceRow) : BackfillStore :=
  rows.foldl (fun store row => stageRow notes store (row.fields notes)) {}

def notesSetup : Setup := { mappings := [notes] }

/-- Staged notes and events to come form a start. -/
theorem mappedRow_stagedNotes
    {id : String}
    (named : id ≠ "")
    (rows : List SourceRow)
    (stream : List ChangeEvent) :
    MappedRow notesSetup notes id { stream, store := stagedNotes rows } where
  found := rfl
  separate := by decide
  starts := by
    refine ⟨rfl, rfl, rfl, rfl, stageRows_labelled rfl rows ?_⟩
    intro key stored present
    cases present
  named := named

end Backfill
end Walkrie
