import Walkrie.Backfill.Race

/-!
# Deletes of a staged row

A delete removes the row from the store and is always dispatched.  The worker
may at that moment hold a copy of the row it has not written yet.  If the
dispatcher writes the delete first, the worker's upsert brings the row back,
and nothing removes it again.
-/

namespace Walkrie
namespace Backfill

open Sink Transition

/-- The action would write the row with this key. -/
def Restores (key : String × Option String) (action : BatchEvent) : Prop :=
  action.kind = .upsert ∧ action.Touches key

instance (key : String × Option String) (action : BatchEvent) :
    Decidable (Restores key action) :=
  inferInstanceAs (Decidable (_ ∧ _))

/-- The dispatcher does not delete the row while the worker has still to write
a copy of it. -/
def DeletesLast (key : String × Option String) (state : State) :
    Label → Prop
  | .write =>
      ∀ action ∈ state.batch.head?,
        action.kind = .delete → action.Touches key →
          ∀ held ∈ state.worker.batch, ¬Restores key held
  | .receive | .merge | .post | .take _ | .claim _ | .workerWrite
  | .markDone => True

instance (key : String × Option String) (state : State) :
    (label : Label) → Decidable (DeletesLast key state label)
  | .write => by
      dsimp only [DeletesLast]
      infer_instance
  | .receive | .merge | .post | .take _ | .claim _ | .workerWrite
  | .markDone => .isTrue trivial

/-- Once nothing is under way, a row whose last event is a delete is not in
the sink. -/
def StaysDeleted (tm : TableMapping) (id : String)
    (stream : List ChangeEvent) (state : State) : Prop :=
  Quiescent state → ∀ event, LastAbout tm id stream event →
    event.op = .delete → state.sink (tm.rowKey id) = none

/-! ## Actions that do not restore the row -/

variable {setup : Setup}
variable {tm : TableMapping}
variable {id : String}
variable {state next : State}

/-- An absent row stays absent unless an action restores it. -/
theorem perform_eq_none
    {key : String × Option String}
    {action : BatchEvent}
    {content : Content}
    (harmless : ¬Restores key action)
    (absent : content key = none) :
    content.perform action key = none := by
  by_cases touches : action.Touches key
  · unfold BatchEvent.Touches at touches
    unfold Content.perform
    cases kind : action.kind with
    | upsert =>
        exact absurd ⟨kind, by simpa [BatchEvent.Touches, kind] using touches⟩
          harmless
    | delete =>
        simp only [kind] at touches
        simp [Content.remove, touches]
    | truncate =>
        simp only [kind] at touches
        exact if_pos touches
  · rw [Content.perform_of_not_touches touches]
    exact absent

/-- An event about another row restores nothing. -/
theorem not_restores_of_not_concerns
    {mappings : List TableMapping}
    (found : findMapping mappings tm.sourceTable = some tm)
    (separate : Separate mappings)
    {event : ChangeEvent}
    {action : BatchEvent}
    (planned : planEvent mappings event = some action)
    (unrelated : ¬Concerns tm id event) :
    ¬Restores (tm.rowKey id) action := by
  rintro ⟨kind, touches⟩
  by_cases whole : event.op = .truncate
  · -- A truncate is planned as a truncate.
    obtain ⟨_, ways⟩ := planEvent_eq_some_iff.mp planned
    generalize action.tm = mapped at ways
    cases ways with
    | upsert op => rcases op with op | op <;> rw [whole] at op <;> cases op
    | delete op => rw [whole] at op; cases op
    | truncate => cases kind
  · exact not_touches_of_not_concerns found separate planned whole unrelated
      touches

/-- A delete of the row is planned as one. -/
theorem planEvent_of_delete
    {mappings : List TableMapping}
    (found : findMapping mappings tm.sourceTable = some tm)
    (named : id ≠ "")
    {event : ChangeEvent}
    (about : Concerns tm id event)
    (delete : event.op = .delete) :
    planEvent mappings event = some { kind := .delete, tm, idVal := id } := by
  have mapped : mappings.find? (fun tm => tm.sourceTable = event.tableName) =
      some tm := by
    rw [about.1]
    exact found
  have shown := about.2
  cases old : event.oldRow with
  | none =>
      exact absurd (shown.symm.trans (by simp [rowId, delete, old])) named
  | some oldRow =>
      have idVal : oldRow.getColumn tm.idSource = id := by
        simpa [rowId, delete, old] using shown
      simp [planEvent, delete, mapped, old, idVal, named]

/-! ## After the last delete -/

/-- What is left of the row after its last event, a delete: nothing in the
store, and either the delete is still to be written, after which nothing
restores the row, or the row is gone for good. -/
inductive Deleted (setup : Setup) (tm : TableMapping) (id : String)
    (state : State) : Prop
  | owed
      (before : List BatchEvent)
      (action : BatchEvent)
      (after : List BatchEvent)
      (flight : state.inFlight setup = before ++ action :: after)
      (delete : action.kind = .delete)
      (touches : action.Touches (tm.rowKey id))
      (harmless : ∀ later ∈ after, ¬Restores (tm.rowKey id) later)
  | gone
      (absent : state.sink (tm.rowKey id) = none)
      (flight : ∀ action ∈ state.inFlight setup,
        ¬Restores (tm.rowKey id) action)
      (worker : ∀ action ∈ state.worker.batch,
        ¬Restores (tm.rowKey id) action)

/-- The last event about the row is still to come, or has left nothing of
it. -/
def Deleting (setup : Setup) (tm : TableMapping) (id : String)
    (last : ChangeEvent) (state : State) : Prop :=
  LastAbout tm id state.stream last ∨
    (∀ event ∈ state.stream, ¬Concerns tm id event) ∧
      state.store.rows.lookup (tm.sourceTable, id) = none ∧
      Deleted setup tm id state

/-- Steps of the intake and the queue only add writes that do not restore the
row. -/
theorem Deleted.extend
    (deleted : Deleted setup tm id state)
    (extra : List BatchEvent)
    (flight : next.inFlight setup = state.inFlight setup ++ extra)
    (harmless : ∀ action ∈ extra, ¬Restores (tm.rowKey id) action)
    (worker : next.worker.batch = state.worker.batch)
    (sink : next.sink = state.sink) :
    Deleted setup tm id next := by
  cases deleted with
  | owed before action after owed delete touches later =>
      refine .owed before action (after ++ extra) ?_ delete touches
        (List.forall_mem_append.mpr ⟨later, harmless⟩)
      rw [flight, owed, List.append_assoc, List.cons_append]
  | gone absent unwritten held =>
      refine .gone (sink ▸ absent) ?_ (worker ▸ held)
      rw [flight]
      exact List.forall_mem_append.mpr ⟨unwritten, harmless⟩

/-- The last event about the row arrives. -/
theorem Deleted.arrives
    (mapped : findMapping setup.mappings tm.sourceTable = some tm)
    (named : id ≠ "")
    {event : ChangeEvent}
    {stream : List ChangeEvent}
    (arrived : state.stream = event :: stream)
    (about : Concerns tm id event)
    (delete : event.op = .delete)
    (moves : Moves setup state .receive next) :
    next.stream = stream ∧
      next.store.rows.lookup (tm.sourceTable, id) = none ∧
      Deleted setup tm id next := by
  obtain ⟨idle, other, received, arrival⟩ :=
    arrival_of_moves mapped named moves
  cases arrived.symm.trans received
  cases arrival with
  | passed _ _ unrelated | foundOther _ _ _ _ unrelated =>
      exact absurd about unrelated
  | inserted _ _ op | missed _ _ op | foundSelf _ _ _ _ op =>
      cases op.symm.trans delete
  | deleted stream =>
      refine ⟨rfl, ?_, ?_⟩
      · rw [BackfillStore.lookup_markDone, if_pos rfl]
      · refine .owed (state.inFlight setup)
          { kind := .delete, tm, idVal := id } [] ?_ rfl rfl (by simp)
        rw [inFlight_posting idle, plan_singleton,
          planEvent_of_delete mapped named about delete, Option.toList_some]

/-- An event about another row arrives after the last event. -/
theorem Deleted.receive
    (mapped : findMapping setup.mappings tm.sourceTable = some tm)
    (separate : Separate setup.mappings)
    (named : id ≠ "")
    {event : ChangeEvent}
    {stream : List ChangeEvent}
    (arrived : state.stream = event :: stream)
    (unrelated : ¬Concerns tm id event)
    (absent : state.store.rows.lookup (tm.sourceTable, id) = none)
    (deleted : Deleted setup tm id state)
    (moves : Moves setup state .receive next) :
    next.stream = stream ∧
      next.store.rows.lookup (tm.sourceTable, id) = none ∧
      Deleted setup tm id next := by
  have harmless : ∀ action ∈ plan setup.mappings [event],
      ¬Restores (tm.rowKey id) action := by
    intro action member
    rw [plan_singleton, Option.mem_toList] at member
    exact not_restores_of_not_concerns mapped separate member unrelated
  obtain ⟨idle, other, received, arrival⟩ :=
    arrival_of_moves mapped named moves
  cases arrived.symm.trans received
  cases arrival with
  | passed stream store _ row =>
      exact ⟨rfl, row.trans absent, deleted.extend _
        (inFlight_posting idle event stream store) harmless rfl rfl⟩
  | foundOther stream =>
      refine ⟨rfl, absent, deleted.extend [] ?_ (by simp) rfl rfl⟩
      simp [State.inFlight, Intake.posted, idle]
  | inserted _ about | deleted _ about | missed _ about
  | foundSelf _ _ _ about =>
      exact absurd about unrelated

/-- The dispatcher makes its next write. -/
theorem Deleted.write
    (deleted : Deleted setup tm id state)
    {action : BatchEvent}
    {batch : List BatchEvent}
    (planned : state.batch = action :: batch)
    (deletesLast : DeletesLast (tm.rowKey id) state .write) :
    Deleted setup tm id
      { state with batch, sink := state.sink.perform action } := by
  have flight : state.inFlight setup = _ := inFlight_write planned
  cases deleted with
  | owed before owed after split delete touches harmless =>
      rw [flight] at split
      cases before with
      | nil =>
          -- The delete itself is written; the worker holds no copy.
          obtain ⟨rfl, rest⟩ := List.cons.inj split
          refine .gone ?_ (rest ▸ harmless) ?_
          · have key : action.tm.rowKey action.idVal = tm.rowKey id := by
              simpa [BatchEvent.Touches, delete] using touches
            simp [Content.perform, delete, Content.remove, key]
          · exact deletesLast action (by simp [planned]) delete touches
      | cons first before =>
          obtain ⟨_, rest⟩ := List.cons.inj split
          exact .owed before owed after rest delete touches harmless
  | gone absent unwritten worker =>
      rw [flight, List.forall_mem_cons] at unwritten
      exact .gone (perform_eq_none unwritten.1 absent) unwritten.2 worker

/-- The worker makes its next write. -/
theorem Deleted.workerWrite
    (deleted : Deleted setup tm id state)
    {action : BatchEvent}
    {batch : List BatchEvent}
    {rows : List ClaimedRow}
    (working : state.worker = .working (action :: batch) rows) :
    Deleted setup tm id
      { state with
        worker := .working batch rows
        sink := state.sink.perform action } := by
  cases deleted with
  | owed before owed after split delete touches harmless =>
      exact .owed before owed after split delete touches harmless
  | gone absent unwritten worker =>
      rw [(worker_write working).1, List.forall_mem_cons] at worker
      exact .gone (perform_eq_none worker.1 absent) unwritten worker.2

/-- The worker turns to other rows. -/
theorem Deleted.rework
    (deleted : Deleted setup tm id state)
    (store : BackfillStore)
    (worker : Worker)
    (spared : ∀ action ∈ worker.batch, ¬Restores (tm.rowKey id) action) :
    Deleted setup tm id { state with store, worker } := by
  cases deleted with
  | owed before owed after split delete touches harmless =>
      exact .owed before owed after split delete touches harmless
  | gone absent unwritten _ => exact .gone absent unwritten spared

/-- The last event stays ahead, or it arrives and deletes the row. -/
theorem LastAbout.deleting
    (mapped : findMapping setup.mappings tm.sourceTable = some tm)
    (named : id ≠ "")
    {last : ChangeEvent}
    (delete : last.op = .delete)
    {label : Label}
    (toCome : LastAbout tm id state.stream last)
    (moves : Moves setup state label next) :
    Deleting setup tm id last next := by
  rcases moves.stream_eq with same | ⟨rfl, event, arrived⟩
  · left
    rw [same]
    exact toCome
  · obtain ⟨before, after, split, about, unrelated⟩ := toCome
    rw [arrived] at split
    cases before with
    | nil =>
        obtain ⟨rfl, rest⟩ := List.cons.inj split
        obtain ⟨_, gone, deleted⟩ :=
          Deleted.arrives mapped named arrived about delete moves
        right
        rw [rest]
        exact ⟨unrelated, gone, deleted⟩
    | cons first before =>
        left
        exact ⟨before, after, (List.cons.inj split).2, about, unrelated⟩

/-- A step that receives no event leaves the row deleted. -/
theorem Deleted.unreceived
    (mapped : findMapping setup.mappings tm.sourceTable = some tm)
    (separate : Separate setup.mappings)
    {label : Label}
    (labelled : AllLabelled setup state)
    (deletesLast : DeletesLast (tm.rowKey id) state label)
    (absent : state.store.rows.lookup (tm.sourceTable, id) = none)
    (deleted : Deleted setup tm id state)
    (moves : Moves setup state label next)
    (same : next.stream = state.stream) :
    next.store.rows.lookup (tm.sourceTable, id) = none ∧
      Deleted setup tm id next := by
  cases moves with
  | pass _ _ _ arrived | remove _ _ _ _ _ arrived
  | miss _ _ _ _ _ _ arrived | find _ _ _ _ _ _ _ arrived =>
      exact absurd (same.trans arrived) (List.cons_ne_self _ _).symm
  | merge sourceTable rowId merged merging =>
      refine ⟨?_, deleted.extend [] ?_ (by simp) rfl rfl⟩
      · rw [BackfillStore.lookup_updateRowData]
        split <;> rename_i key
        · rw [← key, absent]
          rfl
        · exact absent
      · simp [State.inFlight, Intake.posted, merging]
  | post event posting =>
      refine ⟨absent, deleted.extend [] ?_ (by simp) rfl rfl⟩
      simp [State.inFlight, Intake.posted, posting]
  | take count done =>
      exact ⟨absent, deleted.extend [] (inFlight_take done count) (by simp)
        rfl rfl⟩
  | write action batch planned =>
      exact ⟨absent, deleted.write planned deletesLast⟩
  | finish idle selects =>
      exact ⟨absent, deleted.rework state.store .finished (by
        simp [Worker.batch])⟩
  | claim selected idle selects _ =>
      have spare := not_mem_selected selects absent
      refine ⟨by simp [absent], deleted.rework _ _ fun action member => ?_⟩
      exact fun restores => plan_claimed_not_touches mapped separate labelled
        spare action member restores.2
  | workerWrite action batch rows working =>
      exact ⟨absent, deleted.workerWrite working⟩
  | markDone row rows working =>
      refine ⟨?_, deleted.rework _ _ ?_⟩
      · rw [BackfillStore.lookup_markDone, absent, ite_self]
      · cases rows <;> simp [Worker.batch]

theorem step_deleting
    (mapped : findMapping setup.mappings tm.sourceTable = some tm)
    (separate : Separate setup.mappings)
    (named : id ≠ "")
    {last : ChangeEvent}
    (delete : last.op = .delete)
    {label : Label}
    (labelled : AllLabelled setup state)
    (deleting : Deleting setup tm id last state)
    (deletesLast : DeletesLast (tm.rowKey id) state label)
    (taken : step setup state label = some next) :
    Deleting setup tm id last next := by
  have moves := moves_of_step taken
  rcases deleting with toCome | ⟨unrelated, absent, deleted⟩
  · exact toCome.deleting mapped named delete moves
  · right
    rcases moves.stream_eq with same | ⟨rfl, event, arrived⟩
    · rw [same]
      exact ⟨unrelated, deleted.unreceived mapped separate labelled deletesLast
        absent moves same⟩
    · rw [arrived, List.forall_mem_cons] at unrelated
      obtain ⟨_, gone, deleted⟩ :=
        deleted.receive mapped separate named arrived unrelated.1 absent moves
      exact ⟨unrelated.2, gone, deleted⟩

/-- A row whose last event is a delete ends up deleted in a run in which the
dispatcher never deletes it under a copy the worker has still to write. -/
theorem staysDeleted_of_reachable
    (setup : Setup)
    (tm : TableMapping)
    (id : String)
    (start state : State)
    (row : MappedRow setup tm id start)
    (reachable : Reachable (step setup) (DeletesLast (tm.rowKey id)) start
      state) :
    StaysDeleted tm id start.stream state := by
  intro quiescent last about delete
  have invariant : AllLabelled setup state ∧
      Deleting setup tm id last state :=
    reachable.invariant
      (fun state => AllLabelled setup state ∧ Deleting setup tm id last state)
      ⟨row.starts.allLabelled, .inl about⟩
      fun _ _ _ before deletesLast taken =>
        ⟨step_allLabelled before.1 taken,
          step_deleting row.found row.separate row.named delete before.1
            before.2 deletesLast taken⟩
  rcases invariant.2 with ⟨before, after, split, _⟩ | ⟨_, _, deleted⟩
  · rw [quiescent.stream] at split
    exact absurd split.symm (by simp)
  · cases deleted with
    | owed before action after flight =>
        rw [inFlight_of_quiescent quiescent] at flight
        exact absurd flight.symm (by simp)
    | gone absent => exact absent

/-! ## A note that is deleted while it is drained -/

/-- One note waits, and its deletion is still to come. -/
def deleteStart : State :=
  { stream := [noteDelete "1"], store := stagedNotes [noteRow "1" "old"] }

/-- The worker writes its copy before the dispatcher deletes the note. -/
theorem staysDeleted_orderlyRun :
    ∃ state, Reachable (step notesSetup) (DeletesLast (notes.rowKey "1"))
        deleteStart state ∧
      Quiescent state ∧ state.sink (notes.rowKey "1") = none := by
  obtain ⟨state, reachable, passed⟩ := exists_reachable_of_guarded
    (DeletesLast (notes.rowKey "1"))
    [.claim [("notes", "1")], .receive, .post, .workerWrite, .take 1, .write,
      .markDone, .claim []]
    (show (run (guarded (step notesSetup) (DeletesLast (notes.rowKey "1")))
      deleteStart _).any State.isQuiescent = true by decide)
  have quiescent := quiescent_of_isQuiescent passed
  exact ⟨state, reachable, quiescent,
    staysDeleted_of_reachable notesSetup notes "1" deleteStart state
      (mappedRow_stagedNotes (by decide) _ _) reachable quiescent
      (noteDelete "1") ⟨[], [], rfl, by decide, by simp⟩ rfl⟩

/-- The dispatcher deletes the note first, and the worker brings it back. -/
theorem not_staysDeleted_claimedRun :
    MappedRow notesSetup notes "1" deleteStart ∧
      ∃ state, Reachable (step notesSetup) (fun _ _ => True) deleteStart
        state ∧
      ¬StaysDeleted notes "1" deleteStart.stream state := by
  refine ⟨mappedRow_stagedNotes (by decide) _ _, ?_⟩
  obtain ⟨state, reachable, passed⟩ := exists_reachable_of_run
    (fun _ _ => True)
    [.claim [("notes", "1")], .receive, .post, .take 1, .write, .workerWrite,
      .markDone, .claim []]
    (fun _ _ _ => trivial)
    (show (run (step notesSetup) deleteStart _).any (fun state =>
      state.isQuiescent && state.sink (notes.rowKey "1") == some "old") = true
        by decide)
  simp only [Bool.and_eq_true, beq_iff_eq] at passed
  obtain ⟨quiescent, restored⟩ := passed
  refine ⟨state, reachable, fun deleted => ?_⟩
  have absent := deleted (quiescent_of_isQuiescent quiescent) (noteDelete "1")
    ⟨[], [], rfl, by decide, by simp⟩ rfl
  rw [restored] at absent
  cases absent

end Backfill
end Walkrie
