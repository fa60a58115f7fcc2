import Walkrie.Backfill.Race

/-!
# Updates of a staged row

An update whose row is in the store is merged there and not dispatched.  That
is right as long as the worker has not yet taken the row: the merged text is
then the one it will write.  An update that finds the row already claimed is
merged into an object nobody reads again, and is lost.
-/

namespace Walkrie
namespace Backfill

open Sink Transition

/-- The row the next event would be merged into. -/
def mergeTarget? (setup : Setup) (state : State) : Option (String × String) :=
  match state.stream with
  | [] => none
  | event :: _ =>
      match absorption setup.mappings event with
      | .merges tm rowId _ => some (tm.sourceTable, rowId)
      | .unrelated | .removes _ _ => none

/-- No update of the row meets a claim: the row is not claimed when an update
reads it, and is not claimed before the merged object is written. -/
def Undisturbed (setup : Setup) (key : String × String) (state : State) :
    Label → Prop
  | .receive =>
      mergeTarget? setup state = some key →
        ∀ row ∈ state.store.rows.lookup key, row.status = .pending
  | .claim selected => state.intake.target? = some key → key ∉ selected
  | .merge | .post | .take _ | .write | .workerWrite | .markDone => True

instance (setup : Setup) (key : String × String) (state : State) :
    DecidablePred (Undisturbed setup key state)
  | .receive => inferInstanceAs (Decidable (_ → ∀ row ∈ _, _))
  | .claim selected =>
      decidable_of_iff
        (state.intake.target? = some key → ¬selected.contains key)
        (by rw [List.contains_iff_mem, Undisturbed])
  | .merge | .post | .take _ | .write | .workerWrite | .markDone =>
      inferInstanceAs (Decidable True)

/-- Once nothing is under way, the sink shows the text of the last update. -/
def ShowsLastUpdate (tm : TableMapping) (id : String)
    (stream : List ChangeEvent) (state : State) : Prop :=
  Quiescent state → ∀ event, LastAbout tm id stream event →
    state.sink (tm.rowKey id) = some (newText tm event)

/-- The object the store holds for a row once a merge under way is written. -/
def Intake.latest (intake : Intake) (key : String × String)
    (stored : RowData) : RowData :=
  match intake with
  | .merging sourceTable rowId merged =>
      if (sourceTable, rowId) = key then merged else stored
  | .idle | .posting _ => stored

theorem Intake.latest_of_untargeted
    {intake : Intake}
    {key : String × String}
    (untargeted : intake.target? ≠ some key)
    (stored : RowData) :
    intake.latest key stored = stored := by
  cases intake with
  | idle => rfl
  | posting event => rfl
  | merging sourceTable rowId merged =>
      exact if_neg fun same => untargeted (congrArg some same)

/-- Where the current image of the row is: in the store, with the worker, or
in the sink and on its way there.  In each place it is ahead of the events
still to come. -/
inductive Situation (setup : Setup) (tm : TableMapping) (id : String)
    (now : Option String) (state : State) : Prop
  | staged
      (row : StoredRow)
      (present : state.store.rows.lookup (tm.sourceTable, id) = some row)
      (pending : row.status = .pending)
      (unheld : (tm.sourceTable, id) ∉ state.worker.claimed)
      (spared : ∀ action ∈ state.worker.batch, ¬action.Touches (tm.rowKey id))
      (quiet : ∀ action ∈ state.inFlight setup,
        ¬action.Touches (tm.rowKey id))
      (ahead : Ahead tm id now state.stream
        (some (columnText
          (state.intake.latest (tm.sourceTable, id) row.rowData)
          tm.embedSource)))
  | claimed
      (row : StoredRow)
      (present : state.store.rows.lookup (tm.sourceTable, id) = some row)
      (taken : row.status = .claimed)
      (held : (tm.sourceTable, id) ∈ state.worker.claimed)
      (untargeted : state.intake.target? ≠ some (tm.sourceTable, id))
      (quiet : ∀ action ∈ state.inFlight setup,
        ¬action.Touches (tm.rowKey id))
      (ahead : Ahead tm id now state.stream
        (state.sink.performAll state.worker.batch (tm.rowKey id)))
  | drained
      (absent : state.store.rows.lookup (tm.sourceTable, id) = none)
      (untargeted : state.intake.target? ≠ some (tm.sourceTable, id))
      (spared : ∀ action ∈ state.worker.batch, ¬action.Touches (tm.rowKey id))
      (ahead : Ahead tm id now state.stream
        (state.sink.performAll (state.inFlight setup) (tm.rowKey id)))

variable {setup : Setup}
variable {tm : TableMapping}
variable {id : String}
variable {now : Option String}
variable {state next : State}

/-- A step that leaves the row alone, except that more writes that do not
touch it may be on their way. -/
theorem Situation.frame
    {after : Option String}
    (situation : Situation setup tm id now state)
    (later : ∀ value, Ahead tm id now state.stream value →
      Ahead tm id after next.stream value)
    (row : next.store.rows.lookup (tm.sourceTable, id) =
      state.store.rows.lookup (tm.sourceTable, id))
    (latest : ∀ stored, next.intake.latest (tm.sourceTable, id) stored =
      state.intake.latest (tm.sourceTable, id) stored)
    (target : next.intake.target? = some (tm.sourceTable, id) →
      state.intake.target? = some (tm.sourceTable, id))
    (batch : next.worker.batch = state.worker.batch)
    (claimed : next.worker.claimed = state.worker.claimed)
    (extra : List BatchEvent)
    (flight : next.inFlight setup = state.inFlight setup ++ extra)
    (harmless : ∀ action ∈ extra, ¬action.Touches (tm.rowKey id))
    (sink : next.sink = state.sink) :
    Situation setup tm id after next := by
  cases situation with
  | staged stored present pending unheld spared quiet ahead =>
      refine .staged stored (row.trans present) pending (claimed ▸ unheld)
        (batch ▸ spared) ?_ ?_
      · rw [flight]
        exact List.forall_mem_append.mpr ⟨quiet, harmless⟩
      · rw [latest]
        exact later _ ahead
  | claimed stored present taken held untargeted quiet ahead =>
      refine .claimed stored (row.trans present) taken (claimed ▸ held)
        (fun targeted => untargeted (target targeted)) ?_ ?_
      · rw [flight]
        exact List.forall_mem_append.mpr ⟨quiet, harmless⟩
      · rw [batch, sink]
        exact later _ ahead
  | drained absent untargeted spared ahead =>
      refine .drained (row.trans absent)
        (fun targeted => untargeted (target targeted)) (batch ▸ spared) ?_
      rw [flight, sink, Content.performAll_append,
        Content.performAll_of_not_touches harmless]
      exact later _ ahead

/-! ## Events that arrive -/

section Receive

variable {event : ChangeEvent}
variable {stream : List ChangeEvent}

/-- An event about another row is handed over. -/
theorem Situation.passed
    (found : findMapping setup.mappings tm.sourceTable = some tm)
    (separate : Separate setup.mappings)
    (situation : Situation setup tm id now state)
    (idle : state.intake = .idle)
    (arrived : state.stream = event :: stream)
    (single : event.op ≠ .truncate)
    (unrelated : ¬Concerns tm id event)
    (store : BackfillStore)
    (row : store.rows.lookup (tm.sourceTable, id) =
      state.store.rows.lookup (tm.sourceTable, id)) :
    Situation setup tm id (textAfter tm id now event)
      { state with stream, store, intake := .posting event } := by
  refine situation.frame ?_ row ?_ ?_ rfl rfl (plan setup.mappings [event])
    (inFlight_posting idle event stream store) ?_ rfl
  · intro value ahead
    rw [arrived] at ahead
    exact ahead.of_same (textAfter_of_not_concerns unrelated)
  · simp [Intake.latest, idle]
  · simp [Intake.target?]
  · intro action member
    rw [plan_singleton, Option.mem_toList] at member
    exact not_touches_of_not_concerns found separate member single unrelated

/-- An update of another row finds it in the store. -/
theorem Situation.foundOther
    (situation : Situation setup tm id now state)
    (idle : state.intake = .idle)
    (arrived : state.stream = event :: stream)
    (unrelated : ¬Concerns tm id event)
    {sourceTable rowId : String}
    (other : (sourceTable, rowId) ≠ (tm.sourceTable, id))
    (merged : RowData) :
    Situation setup tm id (textAfter tm id now event)
      { state with stream, intake := .merging sourceTable rowId merged } := by
  refine situation.frame ?_ rfl ?_ ?_ rfl rfl [] ?_ (by simp) rfl
  · intro value ahead
    rw [arrived] at ahead
    exact ahead.of_same (textAfter_of_not_concerns unrelated)
  · simp [Intake.latest, idle, other]
  · simp [Intake.target?, other]
  · simp [State.inFlight, Intake.posted, idle]

/-- An update of the row itself finds it waiting in the store. -/
theorem Situation.foundSelf
    (situation : Situation setup tm id now state)
    (idle : state.intake = .idle)
    (arrived : state.stream = event :: stream)
    (op : event.op = .update)
    (about : Concerns tm id event)
    (described : Describes tm id now event)
    {newRow : DecodedRow}
    (new : event.newRow = some newRow)
    {row : StoredRow}
    (present : state.store.rows.lookup (tm.sourceTable, id) = some row)
    (waiting : row.status = .pending) :
    Situation setup tm id (textAfter tm id now event)
      { state with
        stream
        intake := .merging tm.sourceTable id
          (mergeKnownColumns row.rowData newRow tm) } := by
  cases situation with
  | staged stored found pending unheld spared quiet ahead =>
      cases present.symm.trans found
      refine .staged row present pending unheld spared ?_ ?_
      · simpa [State.inFlight, Intake.posted, idle] using quiet
      · simp only [Intake.latest, idle] at ahead
        rw [arrived] at ahead
        simp only [Intake.latest, if_true]
        exact Ahead.merge op new about described ahead
  | claimed stored found taken =>
      cases present.symm.trans found
      cases waiting.symm.trans taken
  | drained absent => cases present.symm.trans absent

/-- An update of the row itself finds it gone and is handed over. -/
theorem Situation.missed
    (found : findMapping setup.mappings tm.sourceTable = some tm)
    (separate : Separate setup.mappings)
    (situation : Situation setup tm id now state)
    (idle : state.intake = .idle)
    (arrived : state.stream = event :: stream)
    (single : event.op ≠ .truncate)
    (described : Describes tm id now event)
    (gone : state.store.rows.lookup (tm.sourceTable, id) = none) :
    Situation setup tm id (textAfter tm id now event)
      { state with stream, intake := .posting event } := by
  cases situation with
  | staged stored present => cases present.symm.trans gone
  | claimed stored present => cases present.symm.trans gone
  | drained absent untargeted spared ahead =>
      refine .drained absent (by simp [Intake.target?]) spared ?_
      rw [inFlight_posting idle, Content.performAll_append]
      rw [arrived] at ahead
      exact ahead.dispatch found separate single described

/-- The text of the row and the events still to come, before and after a
step. -/
def Advances (tm : TableMapping) (id : String) (now : Option String)
    (stream : List ChangeEvent) (after : Option String)
    (rest : List ChangeEvent) : Prop :=
  after = now ∧ rest = stream ∨
    ∃ event, stream = event :: rest ∧ after = textAfter tm id now event

/-- Arrival of an event, whatever becomes of it. -/
theorem Situation.receive
    (found : findMapping setup.mappings tm.sourceTable = some tm)
    (separate : Separate setup.mappings)
    (named : id ≠ "")
    (updates : ∀ event ∈ state.stream, event.op ≠ .truncate ∧
      (Concerns tm id event → event.op = .update))
    (truthful : Truthful tm id now state.stream)
    (undisturbed : Undisturbed setup (tm.sourceTable, id) state .receive)
    (moves : Moves setup state .receive next)
    (situation : Situation setup tm id now state) :
    ∃ after, Advances tm id now state.stream after next.stream ∧
      Situation setup tm id after next := by
  obtain ⟨idle, event, arrived, arrival⟩ := arrival_of_moves found named moves
  rw [arrived] at updates truthful
  obtain ⟨single, update⟩ := updates event List.mem_cons_self
  have described := truthful.1
  refine ⟨_, .inr ⟨event, arrived, rfl⟩, ?_⟩
  cases arrival with
  | passed stream store unrelated row =>
      exact situation.passed found separate idle arrived single unrelated store
        row
  | foundOther stream sourceTable rowId merged unrelated other =>
      exact situation.foundOther idle arrived unrelated other merged
  | inserted stream about op => cases (update about).symm.trans op
  | deleted stream about op => cases (update about).symm.trans op
  | missed stream about op gone =>
      exact situation.missed found separate idle arrived single described gone
  | foundSelf stream newRow row about op new merges present =>
      have target : mergeTarget? setup state = some (tm.sourceTable, id) := by
        simp [mergeTarget?, arrived, merges]
      exact situation.foundSelf idle arrived op about described new present
        (undisturbed target row present)

end Receive

/-! ## Steps of the other parties -/

/-- The merged object is written. -/
theorem Situation.merge
    (situation : Situation setup tm id now state)
    {sourceTable rowId : String}
    {merged : RowData}
    (merging : state.intake = .merging sourceTable rowId merged) :
    Situation setup tm id now
      { state with
        store := (state.store.updateRowData sourceTable rowId merged).1
        intake := .idle } := by
  by_cases same : (sourceTable, rowId) = (tm.sourceTable, id)
  · obtain ⟨rfl, rfl⟩ := Prod.mk.inj same
    have target : state.intake.target? = some (tm.sourceTable, rowId) := by
      simp [Intake.target?, merging]
    cases situation with
    | staged row present pending unheld spared quiet ahead =>
        refine .staged { row with rowData := merged } ?_ pending unheld spared
          ?_ ?_
        · simp [present]
        · simpa [State.inFlight, Intake.posted, merging] using quiet
        · simpa [Intake.latest, merging] using ahead
    | claimed row present taken held untargeted => exact absurd target untargeted
    | drained absent untargeted => exact absurd target untargeted
  · refine situation.frame (fun _ ahead => ahead) ?_ ?_ ?_ rfl rfl [] ?_
      (by simp) rfl
    · rw [BackfillStore.lookup_updateRowData, if_neg (Ne.symm same)]
    · simp [Intake.latest, merging, same]
    · simp [Intake.target?]
    · simp [State.inFlight, Intake.posted, merging]

/-- The dispatcher makes its next write. -/
theorem Situation.write
    (situation : Situation setup tm id now state)
    {action : BatchEvent}
    {batch : List BatchEvent}
    (planned : state.batch = action :: batch) :
    Situation setup tm id now
      { state with batch, sink := state.sink.perform action } := by
  have flight : state.inFlight setup = _ := inFlight_write planned
  cases situation with
  | staged row present pending unheld spared quiet ahead =>
      rw [flight, List.forall_mem_cons] at quiet
      exact .staged row present pending unheld spared quiet.2 ahead
  | claimed row present taken held untargeted quiet ahead =>
      rw [flight, List.forall_mem_cons] at quiet
      refine .claimed row present taken held untargeted quiet.2 ?_
      rw [Content.performAll_congr
        (Content.perform_of_not_touches quiet.1 state.sink)]
      exact ahead
  | drained absent untargeted spared ahead =>
      rw [flight] at ahead
      exact .drained absent untargeted spared ahead

/-- The worker makes its next write. -/
theorem Situation.workerWrite
    (situation : Situation setup tm id now state)
    {action : BatchEvent}
    {batch : List BatchEvent}
    {rows : List ClaimedRow}
    (working : state.worker = .working (action :: batch) rows) :
    Situation setup tm id now
      { state with
        worker := .working batch rows
        sink := state.sink.perform action } := by
  obtain ⟨planned, same⟩ := worker_write working
  cases situation with
  | staged row present pending unheld spared quiet ahead =>
      rw [planned, List.forall_mem_cons] at spared
      exact .staged row present pending (same ▸ unheld) spared.2 quiet ahead
  | claimed row present taken held untargeted quiet ahead =>
      rw [planned] at ahead
      exact .claimed row present taken (same ▸ held) untargeted quiet ahead
  | drained absent untargeted spared ahead =>
      rw [planned, List.forall_mem_cons] at spared
      refine .drained absent untargeted spared.2 ?_
      refine (Content.performAll_congr ?_ _).symm ▸ ahead
      exact Content.perform_of_not_touches spared.1 state.sink

/-- The worker removes the next claimed row. -/
theorem Situation.markDone
    (situation : Situation setup tm id now state)
    {done : ClaimedRow}
    {rows : List ClaimedRow}
    (working : state.worker = .working [] (done :: rows)) :
    Situation setup tm id now
      { state with
        store := state.store.markDone done.sourceTable done.rowId
        worker := if rows.isEmpty then .idle else .working [] rows } := by
  obtain ⟨batch, held⟩ := worker_markDone working
  have spent : ∀ action ∈ (if rows.isEmpty then Worker.idle
      else .working [] rows).batch, ¬action.Touches (tm.rowKey id) := by
    rw [batch]
    simp
  cases situation with
  | staged row present pending unheld spared quiet ahead =>
      rw [held, List.mem_cons, not_or] at unheld
      refine .staged row ?_ pending unheld.2 spent quiet ahead
      rw [BackfillStore.lookup_markDone, if_neg unheld.1]
      exact present
  | claimed row present taken holds untargeted quiet ahead =>
      have written : state.worker.batch = [] := by simp [Worker.batch, working]
      rw [written] at ahead
      by_cases same : (tm.sourceTable, id) = (done.sourceTable, done.rowId)
      · refine .drained ?_ untargeted spent ?_
        · rw [BackfillStore.lookup_markDone, if_pos same]
        · exact (Content.performAll_of_not_touches quiet _).symm ▸ ahead
      · rw [held, List.mem_cons] at holds
        refine .claimed row ?_ taken (holds.resolve_left same) untargeted quiet
          ?_
        · rw [BackfillStore.lookup_markDone, if_neg same]
          exact present
        · rw [batch]
          exact ahead
  | drained absent untargeted spared ahead =>
      refine .drained ?_ untargeted spent ahead
      rw [BackfillStore.lookup_markDone, absent, ite_self]

/-- The worker plans one write of a row it claims, with the text it claimed. -/
theorem writesOnce_plan_claimed
    (found : findMapping setup.mappings tm.sourceTable = some tm)
    (separate : Separate setup.mappings)
    (labelled : AllLabelled setup state)
    {selected : List (String × String)}
    (distinct : selected.Nodup)
    (chosen : (tm.sourceTable, id) ∈ selected)
    {row : StoredRow}
    (present : state.store.rows.lookup (tm.sourceTable, id) = some row)
    (named : id ≠ "")
    (filled : columnText row.rowData tm.embedSource ≠ "") :
    WritesOnce (tm.rowKey id) (columnText row.rowData tm.embedSource)
      (plan setup.mappings
        ((state.store.claimPending selected).1.map toChangeEvent)) := by
  obtain ⟨before, after, rfl⟩ := List.append_of_mem chosen
  obtain ⟨_, others, apart⟩ := List.nodup_append.mp distinct
  have earlier : (tm.sourceTable, id) ∉ before := fun member =>
    apart _ member _ List.mem_cons_self rfl
  have later : (tm.sourceTable, id) ∉ after := (List.nodup_cons.mp others).1
  have rows : (state.store.claimPending
      (before ++ (tm.sourceTable, id) :: after)).1 =
        (state.store.claimPending before).1 ++
          ⟨tm.sourceTable, id, row.rowData⟩ ::
            (state.store.claimPending after).1 := by
    simp [BackfillStore.claimPending, BackfillStore.getRowData, present]
  have shown : columnText row.rowData tm.idSource = id :=
    labelled.stored _ row present tm found
  have planned : planEvent setup.mappings
      (toChangeEvent ⟨tm.sourceTable, id, row.rowData⟩) = _ :=
    planEvent_toChangeEvent found
  rw [if_neg (by simp [shown, named, filled])] at planned
  have whole := List.filterMap_cons_some planned
    (l := (state.store.claimPending after).1.map toChangeEvent)
  rw [← plan, ← plan] at whole
  rw [rows, List.map_append, List.map_cons, plan_append, whole]
  refine ⟨_, _, _, rfl, ?_, ?_,
    plan_claimed_not_touches found separate labelled earlier,
    plan_claimed_not_touches found separate labelled later⟩
  · simp [BatchEvent.Touches, shown]
  · simp [Content.perform, Content.upsert, shown]

/-- The worker claims rows. -/
theorem Situation.claim
    (found : findMapping setup.mappings tm.sourceTable = some tm)
    (separate : Separate setup.mappings)
    (named : id ≠ "")
    (filled : ∀ text ∈ now, text ≠ "")
    (truthful : Truthful tm id now state.stream)
    (labelled : AllLabelled setup state)
    {selected : List (String × String)}
    (undisturbed : Undisturbed setup (tm.sourceTable, id) state
      (.claim selected))
    (idle : state.worker = .idle)
    (selects : state.store.Selects setup.claimBatchSize selected)
    (situation : Situation setup tm id now state) :
    Situation setup tm id now
      { state with
        store := (state.store.claimPending selected).2
        worker := .working
          (plan setup.mappings
            ((state.store.claimPending selected).1.map toChangeEvent))
          (state.store.claimPending selected).1 } := by
  cases situation with
  | staged row present pending unheld spared quiet ahead =>
      by_cases chosen : (tm.sourceTable, id) ∈ selected
      · have untargeted : state.intake.target? ≠ some (tm.sourceTable, id) :=
          fun targeted => undisturbed targeted chosen
        rw [Intake.latest_of_untargeted untargeted] at ahead
        refine .claimed { row with status := .claimed } ?_ rfl ?_ untargeted
          quiet ?_
        · simp [present, chosen]
        · exact (mem_claimed_iff present _).mpr chosen
        · have text := ahead.ne_empty truthful filled _ rfl
          have once := writesOnce_plan_claimed found separate labelled
            selects.1 chosen present named text
          exact (once.performAll state.sink).symm ▸ ahead
      · refine .staged row ?_ pending ?_
          (plan_claimed_not_touches found separate labelled chosen) quiet ahead
        · simp [present, chosen]
        · exact mt (mem_claimed_iff present _).mp chosen
  | claimed row present taken held =>
      rw [idle] at held
      cases held
  | drained absent untargeted spared ahead =>
      have spare := not_mem_selected selects absent
      refine .drained ?_ untargeted
        (plan_claimed_not_touches found separate labelled spare) ahead
      simp [absent]

/-! ## Whole runs -/

/-- A waiting row of a mapped table, and a stream in which every event about
it is an update with a text.  The row was dumped when the slot had been
created, so that it shows a text the source has at some point of the
stream. -/
structure UpdatesStagedRow (setup : Setup) (tm : TableMapping) (id : String)
    (base : String) (start : State) : Prop
    extends MappedRow setup tm id start where
  positive : 0 < setup.claimBatchSize
  filled : base ≠ ""
  staged : ∃ rowData,
    start.store.rows.lookup (tm.sourceTable, id) = some ⟨rowData, .pending⟩ ∧
      Ahead tm id (some base) start.stream
        (some (columnText rowData tm.embedSource))
  updates : ∀ event ∈ start.stream, event.op ≠ .truncate ∧
    (Concerns tm id event → event.op = .update ∧ newText tm event ≠ "")
  truthful : Truthful tm id (some base) start.stream

/-- What holds in every state of an undisturbed run: the row's image is ahead,
and the events still to come lead to the final text. -/
structure Pursues (setup : Setup) (tm : TableMapping) (id : String)
    (final : Option String) (state : State) : Prop where
  labelled : AllLabelled setup state
  exhausted : Exhausted state
  updates : ∀ event ∈ state.stream, event.op ≠ .truncate ∧
    (Concerns tm id event → event.op = .update)
  image : ∃ now, (∀ text ∈ now, text ≠ "") ∧
    Truthful tm id now state.stream ∧
    state.stream.foldl (textAfter tm id) now = final ∧
    Situation setup tm id now state

theorem UpdatesStagedRow.pursues
    {base : String}
    {start : State}
    (updated : UpdatesStagedRow setup tm id base start) :
    Pursues setup tm id
      (start.stream.foldl (textAfter tm id) (some base)) start := by
  obtain ⟨rowData, present, ahead⟩ := updated.staged
  refine ⟨updated.starts.allLabelled, ?_, ?_, some base, ?_,
    updated.truthful, rfl, ?_⟩
  · intro finished
    cases updated.starts.worker.symm.trans finished
  · intro event member
    obtain ⟨single, update⟩ := updated.updates event member
    exact ⟨single, fun about => (update about).1⟩
  · simpa using updated.filled
  · refine .staged ⟨rowData, .pending⟩ present rfl ?_ ?_ ?_ ?_
    · simp [Worker.claimed, updated.starts.worker]
    · simp [Worker.batch, updated.starts.worker]
    · simp [State.inFlight, updated.starts.batch, updated.starts.queue,
        updated.starts.intake, Intake.posted, plan]
    · simpa [Intake.latest, updated.starts.intake] using ahead

/-- One step, whoever takes it. -/
theorem Situation.step
    (found : findMapping setup.mappings tm.sourceTable = some tm)
    (separate : Separate setup.mappings)
    (named : id ≠ "")
    {label : Label}
    (labelled : AllLabelled setup state)
    (updates : ∀ event ∈ state.stream, event.op ≠ .truncate ∧
      (Concerns tm id event → event.op = .update))
    (filled : ∀ text ∈ now, text ≠ "")
    (truthful : Truthful tm id now state.stream)
    (undisturbed : Undisturbed setup (tm.sourceTable, id) state label)
    (taken : step setup state label = some next)
    (situation : Situation setup tm id now state) :
    ∃ after, Advances tm id now state.stream after next.stream ∧
      Situation setup tm id after next := by
  have moves := moves_of_step taken
  cases label with
  | receive =>
      exact situation.receive found separate named updates truthful undisturbed
        moves
  | merge =>
      cases moves with
      | merge sourceTable rowId merged merging =>
          exact ⟨now, .inl ⟨rfl, rfl⟩, situation.merge merging⟩
  | post =>
      cases moves with
      | post event posting =>
          refine ⟨now, .inl ⟨rfl, rfl⟩, situation.frame (fun _ ahead => ahead)
            rfl ?_ ?_ rfl rfl [] ?_ (by simp) rfl⟩
          · simp [Intake.latest, posting]
          · simp [Intake.target?]
          · simp [State.inFlight, Intake.posted, posting]
  | take count =>
      cases moves with
      | take _ done =>
          exact ⟨now, .inl ⟨rfl, rfl⟩, situation.frame (fun _ ahead => ahead)
            rfl (fun _ => rfl) (fun targeted => targeted) rfl rfl []
            (inFlight_take done count) (by simp) rfl⟩
  | write =>
      cases moves with
      | write action batch planned =>
          exact ⟨now, .inl ⟨rfl, rfl⟩, situation.write planned⟩
  | claim selected =>
      cases moves with
      | finish idle selects =>
          refine ⟨now, .inl ⟨rfl, rfl⟩, situation.frame (fun _ ahead => ahead)
            rfl (fun _ => rfl) (fun targeted => targeted) ?_ ?_ [] ?_
            (by simp) rfl⟩
          · simp [Worker.batch, idle]
          · simp [Worker.claimed, idle]
          · simp [State.inFlight]
      | claim _ idle selects _ =>
          exact ⟨now, .inl ⟨rfl, rfl⟩, situation.claim found separate named
            filled truthful labelled undisturbed idle selects⟩
  | workerWrite =>
      cases moves with
      | workerWrite action batch rows working =>
          exact ⟨now, .inl ⟨rfl, rfl⟩, situation.workerWrite working⟩
  | markDone =>
      cases moves with
      | markDone done rows working =>
          exact ⟨now, .inl ⟨rfl, rfl⟩, situation.markDone working⟩

theorem step_pursues
    (positive : 0 < setup.claimBatchSize)
    (found : findMapping setup.mappings tm.sourceTable = some tm)
    (separate : Separate setup.mappings)
    (named : id ≠ "")
    {final : Option String}
    {label : Label}
    (pursues : Pursues setup tm id final state)
    (undisturbed : Undisturbed setup (tm.sourceTable, id) state label)
    (taken : step setup state label = some next) :
    Pursues setup tm id final next := by
  obtain ⟨labelled, exhausted, updates, now, filled, truthful, leads,
    situation⟩ := pursues
  obtain ⟨after, advances, moved⟩ := situation.step found separate named
    labelled updates filled truthful undisturbed taken
  have labelled := step_allLabelled labelled taken
  have exhausted := step_exhausted positive exhausted taken
  rcases advances with ⟨rfl, same⟩ | ⟨event, arrived, rfl⟩
  · rw [← same] at updates truthful leads
    exact ⟨labelled, exhausted, updates, after, filled, truthful, leads, moved⟩
  · rw [arrived] at updates truthful leads
    rw [List.forall_mem_cons] at updates
    refine ⟨labelled, exhausted, updates.2, _, ?_, truthful.2, leads, moved⟩
    have ahead : Ahead tm id now [event] _ := Or.inr rfl
    exact ahead.ne_empty ⟨truthful.1, trivial⟩ filled

/-- A text that was sent was not left out as unchanged. -/
theorem textUnsent_of_newText
    {event : ChangeEvent}
    (text : newText tm event ≠ "") :
    textUnsent tm event = false := by
  cases new : event.newRow with
  | none => simp [textUnsent, new]
  | some newRow =>
      simp only [newText, new, Option.map_some, Option.getD_some] at text
      have known := DecodedRow.known?_of_getColumn text
      cases toast : newRow.isToast tm.embedSource with
      | false => simp [textUnsent, new, toast]
      | true => cases known.symm.trans (DecodedRow.known?_of_isToast toast)

/-- The final text is the one that was sent last. -/
theorem foldl_textAfter_of_lastAbout
    {events : List ChangeEvent}
    {event : ChangeEvent}
    (last : LastAbout tm id events event)
    (kind : event.op = .insert ∨ event.op = .update)
    (sent : textUnsent tm event = false) :
    events.foldl (textAfter tm id) now = some (newText tm event) := by
  obtain ⟨before, after, rfl, about, unrelated⟩ := last
  rw [List.foldl_append, List.foldl_cons,
    foldl_textAfter_of_not_concerns unrelated]
  rcases kind with op | op <;> simp [textAfter, about, op, sent]

/-- With nothing under way, the image of the row is in the sink. -/
theorem Pursues.sink_eq
    {final : Option String}
    (pursues : Pursues setup tm id final state)
    (quiescent : Quiescent state) :
    state.sink (tm.rowKey id) = final := by
  obtain ⟨_, exhausted, _, now, _, _, leads, situation⟩ := pursues
  rw [quiescent.stream] at leads
  cases situation with
  | staged row present pending =>
      obtain ⟨rowData, status⟩ := row
      cases pending
      have waiting := BackfillStore.mem_pendingKeys.mpr ⟨rowData, present⟩
      rw [exhausted quiescent.worker] at waiting
      cases waiting
  | claimed row present taken held =>
      rw [quiescent.worker] at held
      cases held
  | drained absent untargeted spared ahead =>
      rw [inFlight_of_quiescent quiescent, quiescent.stream] at ahead
      exact Eq.trans ahead leads

/-- No update of a staged row is lost in a run in which none of its updates
meets a claim. -/
theorem showsLastUpdate_of_reachable
    (setup : Setup)
    (tm : TableMapping)
    (id base : String)
    (start state : State)
    (updated : UpdatesStagedRow setup tm id base start)
    (reachable : Reachable (step setup)
      (Undisturbed setup (tm.sourceTable, id)) start state) :
    ShowsLastUpdate tm id start.stream state := by
  have pursues : Pursues setup tm id
      (start.stream.foldl (textAfter tm id) (some base)) state :=
    reachable.invariant _ updated.pursues
      fun _ _ _ before undisturbed taken =>
        step_pursues updated.positive updated.found updated.separate
          updated.named before undisturbed taken
  intro quiescent event last
  obtain ⟨before, after, same, about, unrelated⟩ := last
  obtain ⟨update, text⟩ := (updated.updates event
    (by rw [same]; exact List.mem_append_right _ List.mem_cons_self)).2 about
  rw [pursues.sink_eq quiescent]
  exact foldl_textAfter_of_lastAbout ⟨before, after, same, about, unrelated⟩
    (.inr update) (textUnsent_of_newText text)

/-! ## A note that is updated while it is drained -/

/-- One note waits, and one update of it is still to come. -/
def updateStart : State :=
  { stream := [noteUpdate "1" "new"], store := stagedNotes [noteRow "1" "old"] }

theorem updatesStagedRow_updateStart :
    UpdatesStagedRow notesSetup notes "1" "old" updateStart where
  toMappedRow := mappedRow_stagedNotes (by decide) _ _
  positive := by decide
  filled := by decide
  staged := ⟨_, rfl, .inl rfl⟩
  updates := by decide
  truthful :=
    ⟨fun _ => ⟨by decide, .inr (by decide), .inl (by decide)⟩, trivial⟩

/-- The update arrives first and the worker writes the merged text. -/
theorem showsLastUpdate_mergedRun :
    ∃ state, Reachable (step notesSetup)
        (Undisturbed notesSetup ("notes", "1")) updateStart state ∧
      Quiescent state ∧ state.sink (notes.rowKey "1") = some "new" := by
  obtain ⟨state, reachable, passed⟩ := exists_reachable_of_guarded
    (Undisturbed notesSetup ("notes", "1"))
    [.receive, .merge, .claim [("notes", "1")], .workerWrite, .markDone,
      .claim []]
    (show (run (guarded (step notesSetup)
      (Undisturbed notesSetup ("notes", "1"))) updateStart _).any
        State.isQuiescent = true by decide)
  have quiescent := quiescent_of_isQuiescent passed
  exact ⟨state, reachable, quiescent,
    showsLastUpdate_of_reachable notesSetup notes "1" "old" updateStart state
      updatesStagedRow_updateStart reachable quiescent (noteUpdate "1" "new")
      ⟨[], [], rfl, by decide, by simp⟩⟩

/-- The update finds the note already claimed and is lost. -/
theorem not_showsLastUpdate_claimedRun :
    UpdatesStagedRow notesSetup notes "1" "old" updateStart ∧
      ∃ state, Reachable (step notesSetup) (fun _ _ => True) updateStart
        state ∧
      ¬ShowsLastUpdate notes "1" updateStart.stream state := by
  refine ⟨updatesStagedRow_updateStart, ?_⟩
  obtain ⟨state, reachable, passed⟩ := exists_reachable_of_run
    (fun _ _ => True)
    [.claim [("notes", "1")], .receive, .merge, .workerWrite, .markDone,
      .claim []]
    (fun _ _ _ => trivial)
    (show (run (step notesSetup) updateStart _).any (fun state =>
      state.isQuiescent && state.sink (notes.rowKey "1") == some "old") = true
        by decide)
  simp only [Bool.and_eq_true, beq_iff_eq] at passed
  obtain ⟨quiescent, stale⟩ := passed
  refine ⟨state, reachable, fun shows => ?_⟩
  have text := shows (quiescent_of_isQuiescent quiescent)
    (noteUpdate "1" "new") ⟨[], [], rfl, by decide, by simp⟩
  rw [stale] at text
  exact absurd text (by decide)

end Backfill
end Walkrie
