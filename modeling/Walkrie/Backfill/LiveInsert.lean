import Walkrie.Backfill.LostUpdate

/-!
# Rows that are both staged and inserted live

A row inserted between the creation of the slot and the dump is in the store
and in the stream.  Its insert takes the way through the queue, while updates
that follow are merged into the store and written by the worker.  The two ways
are not ordered, so the insert may reach the sink after the worker's write and
overwrite a newer text.
-/

namespace Walkrie
namespace Backfill

open Sink Transition

/-- No update of the row is among the events. -/
def Unrevised (tm : TableMapping) (id : String) (events : List ChangeEvent) :
    Prop :=
  ∀ event ∈ events, Concerns tm id event → event.op ≠ .update

instance (tm : TableMapping) (id : String) (events : List ChangeEvent) :
    Decidable (Unrevised tm id events) :=
  inferInstanceAs (Decidable (∀ event ∈ events, _))

/-- The events of the stream that have arrived. -/
def arrived (stream : List ChangeEvent) (state : State) : List ChangeEvent :=
  stream.take (stream.length - state.stream.length)

/-- The worker does not write its copy of the row while a live write of the row
is under way and an update of the row has arrived. -/
def Unovertaken (setup : Setup) (tm : TableMapping) (id : String)
    (stream : List ChangeEvent) (state : State) : Label → Prop
  | .workerWrite =>
      (∃ action ∈ state.worker.batch.head?, action.Touches (tm.rowKey id)) →
      (∃ action ∈ state.inFlight setup, action.Touches (tm.rowKey id)) →
        Unrevised tm id (arrived stream state)
  | _ => True

instance (setup : Setup) (tm : TableMapping) (id : String)
    (stream : List ChangeEvent) (state : State) : (label : Label) →
    Decidable (Unovertaken setup tm id stream state label)
  | .workerWrite => inferInstanceAs (Decidable (_ → _ → Unrevised tm id _))
  | .receive | .merge | .post | .take _ | .write | .claim _ | .markDone =>
      inferInstanceAs (Decidable True)

/-- No write of the dispatcher under way concerns the row, or just the one of
its insert, which leaves the row's text if no update has arrived. -/
def Flight (tm : TableMapping) (id : String)
    (seen : List ChangeEvent) (now : Option String)
    (batch : List BatchEvent) : Prop :=
  (∀ action ∈ batch, ¬action.Touches (tm.rowKey id)) ∨
    ∃ text, WritesOnce (tm.rowKey id) text batch ∧ now ≠ none ∧
      (Unrevised tm id seen → now = some text)

/-- Where the current image of the row is: in the store, with the worker, or
in the sink and on its way there. -/
inductive Journey (setup : Setup) (tm : TableMapping) (id : String)
    (seen : List ChangeEvent) (now : Option String) (state : State) : Prop
  | staged
      (row : StoredRow)
      (present : state.store.rows.lookup (tm.sourceTable, id) = some row)
      (pending : row.status = .pending)
      (unheld : (tm.sourceTable, id) ∉ state.worker.claimed)
      (spared : ∀ action ∈ state.worker.batch, ¬action.Touches (tm.rowKey id))
      (flight : Flight tm id seen now (state.inFlight setup))
      (ahead : Ahead tm id now state.stream
        (some (columnText
          (state.intake.latest (tm.sourceTable, id) row.rowData)
          tm.embedSource)))
  | claimed
      (row : StoredRow)
      (present : state.store.rows.lookup (tm.sourceTable, id) = some row)
      (taken : row.status = .claimed)
      (held : (tm.sourceTable, id) ∈ state.worker.claimed)
      (untargeted : state.intake.target? ≠ some (tm.sourceTable, id))
      (text : String)
      (once : WritesOnce (tm.rowKey id) text state.worker.batch)
      (flight : Flight tm id seen now (state.inFlight setup))
      (ahead : Ahead tm id now state.stream (some text))
  | written
      (kept : ∀ row,
        state.store.rows.lookup (tm.sourceTable, id) = some row →
          row.status = .claimed ∧ (tm.sourceTable, id) ∈ state.worker.claimed)
      (untargeted : state.intake.target? ≠ some (tm.sourceTable, id))
      (spared : ∀ action ∈ state.worker.batch, ¬action.Touches (tm.rowKey id))
      (ahead : Ahead tm id now state.stream
        (state.sink.performAll (state.inFlight setup) (tm.rowKey id)))

variable {setup : Setup}
variable {tm : TableMapping}
variable {id : String}
variable {seen : List ChangeEvent}
variable {now : Option String}
variable {state next : State}

/-- More writes that do not concern the row, and more events that do not revise
it. -/
theorem Flight.frame
    {later : List ChangeEvent}
    {batch extra : List BatchEvent}
    (flight : Flight tm id seen now batch)
    (fewer : Unrevised tm id later → Unrevised tm id seen)
    (harmless : ∀ action ∈ extra, ¬action.Touches (tm.rowKey id)) :
    Flight tm id later now (batch ++ extra) := by
  rcases flight with quiet | ⟨text, once, known, same⟩
  · exact .inl (List.forall_mem_append.mpr ⟨quiet, harmless⟩)
  · exact .inr ⟨text, once.append harmless, known,
      fun unrevised => same (fewer unrevised)⟩

/-- The dispatcher makes its first write. -/
theorem Flight.tail
    {action : BatchEvent}
    {batch : List BatchEvent}
    (flight : Flight tm id seen now (action :: batch)) :
    Flight tm id seen now batch := by
  rcases flight with quiet | ⟨text, once, known, same⟩
  · rw [List.forall_mem_cons] at quiet
    exact .inl quiet.2
  · rcases once.cons with ⟨_, rest⟩ | ⟨_, _, rest⟩
    · exact .inr ⟨text, rest, known, same⟩
    · exact .inl rest

/-- A step that leaves the row alone, except that more writes that do not
touch it may be on their way. -/
theorem Journey.frame
    {later : List ChangeEvent}
    (journey : Journey setup tm id seen now state)
    (fewer : Unrevised tm id later → Unrevised tm id seen)
    (ahead : ∀ value, Ahead tm id now state.stream value →
      Ahead tm id now next.stream value)
    (row : next.store.rows.lookup (tm.sourceTable, id) =
      state.store.rows.lookup (tm.sourceTable, id))
    (latest : ∀ stored, next.intake.latest (tm.sourceTable, id) stored =
      state.intake.latest (tm.sourceTable, id) stored)
    (target : next.intake.target? = some (tm.sourceTable, id) →
      state.intake.target? = some (tm.sourceTable, id))
    (batch : next.worker.batch = state.worker.batch)
    (claimed : next.worker.claimed = state.worker.claimed)
    (extra : List BatchEvent)
    (flight : next.inFlight setup = state.inFlight setup ++ extra)
    (harmless : ∀ action ∈ extra, ¬action.Touches (tm.rowKey id))
    (sink : next.sink = state.sink) :
    Journey setup tm id later now next := by
  cases journey with
  | staged stored present pending unheld spared inside before =>
      refine .staged stored (row.trans present) pending (claimed ▸ unheld)
        (batch ▸ spared) (flight ▸ inside.frame fewer harmless) ?_
      rw [latest]
      exact ahead _ before
  | claimed stored present taken held untargeted text once inside before =>
      exact .claimed stored (row.trans present) taken (claimed ▸ held)
        (fun targeted => untargeted (target targeted)) text (batch ▸ once)
        (flight ▸ inside.frame fewer harmless) (ahead _ before)
  | written kept untargeted spared before =>
      refine .written ?_ (fun targeted => untargeted (target targeted))
        (batch ▸ spared) ?_
      · rw [row, claimed]
        exact kept
      · rw [flight, sink, Content.performAll_append,
          Content.performAll_of_not_touches harmless]
        exact ahead _ before

/-! ## Events that arrive -/

section Receive

variable {event : ChangeEvent}
variable {stream : List ChangeEvent}

/-- Another event does not make the row revised, unless it is an update of
it. -/
theorem unrevised_of_append
    (events : List ChangeEvent) :
    Unrevised tm id (seen ++ events) → Unrevised tm id seen :=
  fun unrevised event member =>
    unrevised event (List.mem_append_left events member)

/-- An event about another row is handed over. -/
theorem Journey.passed
    (found : findMapping setup.mappings tm.sourceTable = some tm)
    (separate : Separate setup.mappings)
    (journey : Journey setup tm id seen now state)
    (idle : state.intake = .idle)
    (next : state.stream = event :: stream)
    (single : event.op ≠ .truncate)
    (unrelated : ¬Concerns tm id event)
    (store : BackfillStore)
    (row : store.rows.lookup (tm.sourceTable, id) =
      state.store.rows.lookup (tm.sourceTable, id)) :
    Journey setup tm id (seen ++ [event]) (textAfter tm id now event)
      { state with stream, store, intake := .posting event } := by
  have same : textAfter tm id now event = now :=
    textAfter_of_not_concerns unrelated
  rw [same]
  refine journey.frame (unrevised_of_append _) ?_ row ?_ ?_ rfl rfl
    (plan setup.mappings [event]) (inFlight_posting idle event stream store)
    ?_ rfl
  · intro value ahead
    rw [next] at ahead
    exact same ▸ ahead.of_same same
  · simp [Intake.latest, idle]
  · simp [Intake.target?]
  · intro action member
    rw [plan_singleton, Option.mem_toList] at member
    exact not_touches_of_not_concerns found separate member single unrelated

/-- An update of another row finds it in the store. -/
theorem Journey.foundOther
    (journey : Journey setup tm id seen now state)
    (idle : state.intake = .idle)
    (next : state.stream = event :: stream)
    (unrelated : ¬Concerns tm id event)
    {sourceTable rowId : String}
    (other : (sourceTable, rowId) ≠ (tm.sourceTable, id))
    (merged : RowData) :
    Journey setup tm id (seen ++ [event]) (textAfter tm id now event)
      { state with stream, intake := .merging sourceTable rowId merged } := by
  have same : textAfter tm id now event = now :=
    textAfter_of_not_concerns unrelated
  rw [same]
  refine journey.frame (unrevised_of_append _) ?_ rfl ?_ ?_ rfl rfl [] ?_
    (by simp) rfl
  · intro value ahead
    rw [next] at ahead
    exact same ▸ ahead.of_same same
  · simp [Intake.latest, idle, other]
  · simp [Intake.target?, other]
  · simp [State.inFlight, Intake.posted, idle]

/-- A value the row has had or will have after its insert. -/
theorem Ahead.of_insert
    {text : String}
    (absent : now = none)
    (ahead : Ahead tm id now (event :: stream) (some text)) :
    Ahead tm id (textAfter tm id now event) stream (some text) := by
  rcases ahead with impossible | later
  · rw [absent] at impossible
    cases impossible
  · exact later

/-- The insert of the row itself is handed over. -/
theorem Journey.inserted
    (found : findMapping setup.mappings tm.sourceTable = some tm)
    (journey : Journey setup tm id seen now state)
    (idle : state.intake = .idle)
    (next : state.stream = event :: stream)
    (op : event.op = .insert)
    (about : Concerns tm id event)
    (described : Describes tm id now event) :
    Journey setup tm id (seen ++ [event]) (textAfter tm id now event)
      { state with stream, intake := .posting event } := by
  obtain ⟨named, truth⟩ := described about
  simp only [op] at truth
  obtain ⟨absent, filled⟩ := truth
  have after : textAfter tm id now event = some (newText tm event) := by
    simp [textAfter, about, op]
  have performs : ∀ content : Content,
      content.performAll (planEvent setup.mappings event).toList
        (tm.rowKey id) = some (newText tm event) := by
    intro content
    rw [← plan_singleton, performAll_plan_of_concerns found named about]
    simp [dispatchedText, op, filled]
  have flight : State.inFlight setup
      { state with stream, intake := .posting event } = _ :=
    inFlight_posting idle event stream state.store
  rw [plan_singleton] at flight
  have carried : Flight tm id seen now (state.inFlight setup) →
      Flight tm id (seen ++ [event]) (textAfter tm id now event)
        (State.inFlight setup
          { state with stream, intake := .posting event }) := by
    rintro (quiet | ⟨_, _, known, _⟩)
    · refine .inr ⟨newText tm event, ?_, by simp [after], fun _ => after⟩
      rw [flight]
      exact writesOnce_of_performs quiet performs
    · exact absurd absent known
  cases journey with
  | staged stored present pending unheld spared inside ahead =>
      refine .staged stored present pending unheld spared (carried inside) ?_
      simp only [Intake.latest, idle] at ahead
      rw [next] at ahead
      exact ahead.of_insert absent
  | claimed stored present taken held untargeted text once inside ahead =>
      rw [next] at ahead
      exact .claimed stored present taken held (by simp [Intake.target?]) text
        once (carried inside) (ahead.of_insert absent)
  | written kept untargeted spared ahead =>
      refine .written kept (by simp [Intake.target?]) spared ?_
      rw [flight, Content.performAll_append, performs, after]
      exact ahead_now

/-- An update of the row itself finds it waiting in the store. -/
theorem Journey.foundSelf
    (journey : Journey setup tm id seen now state)
    (idle : state.intake = .idle)
    (next : state.stream = event :: stream)
    (op : event.op = .update)
    (about : Concerns tm id event)
    (described : Describes tm id now event)
    {newRow : DecodedRow}
    (new : event.newRow = some newRow)
    {row : StoredRow}
    (present : state.store.rows.lookup (tm.sourceTable, id) = some row)
    (waiting : row.status = .pending) :
    Journey setup tm id (seen ++ [event]) (textAfter tm id now event)
      { state with
        stream
        intake := .merging tm.sourceTable id
          (mergeKnownColumns row.rowData newRow tm) } := by
  cases journey with
  | staged stored found pending unheld spared inside ahead =>
      cases present.symm.trans found
      refine .staged row present pending unheld spared ?_ ?_
      · have same : State.inFlight setup
            { state with
              stream
              intake := .merging tm.sourceTable id
                (mergeKnownColumns row.rowData newRow tm) } =
              state.inFlight setup := by
          simp [State.inFlight, Intake.posted, idle]
        rw [same]
        rcases inside with quiet | ⟨text, once, known, _⟩
        · exact .inl quiet
        · -- The update revises the row.
          refine .inr ⟨text, once, ?_, fun unrevised =>
            absurd op (unrevised event (by simp) about)⟩
          simp only [textAfter, about, op, if_true]
          split
          · exact known
          · simp
      · simp only [Intake.latest, idle] at ahead
        rw [next] at ahead
        simp only [Intake.latest, if_true]
        exact Ahead.merge op new about described ahead
  | claimed stored found taken =>
      cases present.symm.trans found
      cases waiting.symm.trans taken
  | written kept => cases waiting.symm.trans (kept row present).1

/-- An update of the row itself finds it gone and is handed over. -/
theorem Journey.missed
    (found : findMapping setup.mappings tm.sourceTable = some tm)
    (separate : Separate setup.mappings)
    (journey : Journey setup tm id seen now state)
    (idle : state.intake = .idle)
    (next : state.stream = event :: stream)
    (single : event.op ≠ .truncate)
    (described : Describes tm id now event)
    (gone : state.store.rows.lookup (tm.sourceTable, id) = none) :
    Journey setup tm id (seen ++ [event]) (textAfter tm id now event)
      { state with stream, intake := .posting event } := by
  cases journey with
  | staged stored present => cases present.symm.trans gone
  | claimed stored present => cases present.symm.trans gone
  | written kept untargeted spared ahead =>
      refine .written kept (by simp [Intake.target?]) spared ?_
      rw [inFlight_posting idle, Content.performAll_append]
      rw [next] at ahead
      exact ahead.dispatch found separate single described

/-- Arrival of an event, whatever becomes of it. -/
theorem Journey.receive
    (found : findMapping setup.mappings tm.sourceTable = some tm)
    (separate : Separate setup.mappings)
    (named : id ≠ "")
    (kinds : ∀ event ∈ state.stream, event.op ≠ .truncate ∧
      (Concerns tm id event → event.op = .insert ∨ event.op = .update))
    (truthful : Truthful tm id now state.stream)
    (undisturbed : Undisturbed setup (tm.sourceTable, id) state .receive)
    (moves : Moves setup state .receive next)
    (journey : Journey setup tm id seen now state) :
    ∃ event, state.stream = event :: next.stream ∧
      Journey setup tm id (seen ++ [event]) (textAfter tm id now event)
        next := by
  obtain ⟨idle, event, arrives, arrival⟩ := arrival_of_moves found named moves
  rw [arrives] at kinds truthful
  obtain ⟨single, kind⟩ := kinds event List.mem_cons_self
  have described := truthful.1
  refine ⟨event, arrives, ?_⟩
  cases arrival with
  | passed stream store unrelated row =>
      exact journey.passed found separate idle arrives single unrelated store
        row
  | foundOther stream sourceTable rowId merged unrelated other =>
      exact journey.foundOther idle arrives unrelated other merged
  | inserted stream about op =>
      exact journey.inserted found idle arrives op about described
  | deleted stream about op =>
      rw [op] at kind
      rcases kind about with impossible | impossible <;> cases impossible
  | missed stream about op gone =>
      exact journey.missed found separate idle arrives single described gone
  | foundSelf stream newRow row about op new merges present =>
      have target : mergeTarget? setup state = some (tm.sourceTable, id) := by
        simp [mergeTarget?, arrives, merges]
      exact journey.foundSelf idle arrives op about described new present
        (undisturbed target row present)

end Receive

/-! ## Steps of the other parties -/

/-- The merged object is written. -/
theorem Journey.merge
    (journey : Journey setup tm id seen now state)
    {sourceTable rowId : String}
    {merged : RowData}
    (merging : state.intake = .merging sourceTable rowId merged) :
    Journey setup tm id seen now
      { state with
        store := (state.store.updateRowData sourceTable rowId merged).1
        intake := .idle } := by
  have flight : State.inFlight setup
      { state with
        store := (state.store.updateRowData sourceTable rowId merged).1
        intake := .idle } = state.inFlight setup := by
    simp [State.inFlight, Intake.posted, merging]
  by_cases same : (sourceTable, rowId) = (tm.sourceTable, id)
  · obtain ⟨rfl, rfl⟩ := Prod.mk.inj same
    have target : state.intake.target? = some (tm.sourceTable, rowId) := by
      simp [Intake.target?, merging]
    cases journey with
    | staged row present pending unheld spared inside ahead =>
        refine .staged { row with rowData := merged } ?_ pending unheld spared
          (flight ▸ inside) ?_
        · simp [present]
        · simpa [Intake.latest, merging] using ahead
    | claimed row present taken held untargeted =>
        exact absurd target untargeted
    | written kept untargeted => exact absurd target untargeted
  · refine journey.frame (fun unrevised => unrevised) (fun _ ahead => ahead) ?_
      ?_ ?_ rfl rfl [] ?_ (by simp) rfl
    · rw [BackfillStore.lookup_updateRowData, if_neg (Ne.symm same)]
    · simp [Intake.latest, merging, same]
    · simp [Intake.target?]
    · rw [flight, List.append_nil]

/-- The dispatcher makes its next write. -/
theorem Journey.write
    (journey : Journey setup tm id seen now state)
    {action : BatchEvent}
    {batch : List BatchEvent}
    (planned : state.batch = action :: batch) :
    Journey setup tm id seen now
      { state with batch, sink := state.sink.perform action } := by
  have flight : state.inFlight setup = _ := inFlight_write planned
  cases journey with
  | staged row present pending unheld spared inside ahead =>
      rw [flight] at inside
      exact .staged row present pending unheld spared inside.tail ahead
  | claimed row present taken held untargeted text once inside ahead =>
      rw [flight] at inside
      exact .claimed row present taken held untargeted text once inside.tail
        ahead
  | written kept untargeted spared ahead =>
      rw [flight] at ahead
      exact .written kept untargeted spared ahead

/-- The worker makes its next write. -/
theorem Journey.workerWrite
    {stream : List ChangeEvent}
    (seenSoFar : arrived stream state = seen)
    (unovertaken : Unovertaken setup tm id stream state .workerWrite)
    (journey : Journey setup tm id seen now state)
    {action : BatchEvent}
    {batch : List BatchEvent}
    {rows : List ClaimedRow}
    (working : state.worker = .working (action :: batch) rows) :
    Journey setup tm id seen now
      { state with
        worker := .working batch rows
        sink := state.sink.perform action } := by
  obtain ⟨planned, same⟩ := worker_write working
  cases journey with
  | staged row present pending unheld spared inside ahead =>
      rw [planned, List.forall_mem_cons] at spared
      exact .staged row present pending (same ▸ unheld) spared.2 inside ahead
  | claimed row present taken held untargeted text once inside ahead =>
      rw [planned] at once
      rcases once.cons with ⟨_, rest⟩ | ⟨touches, performs, rest⟩
      · exact .claimed row present taken (same ▸ held) untargeted text rest
          inside ahead
      · have kept : ∀ stored,
            state.store.rows.lookup (tm.sourceTable, id) = some stored →
              stored.status = .claimed ∧ (tm.sourceTable, id) ∈
                (Worker.working batch rows).claimed := by
          intro stored found
          cases present.symm.trans found
          exact ⟨taken, same ▸ held⟩
        refine .written kept untargeted rest ?_
        show Ahead tm id now state.stream
          ((state.sink.perform action).performAll (state.inFlight setup)
            (tm.rowKey id))
        rcases inside with quiet | ⟨insert, inserts, _, unchanged⟩
        · rw [Content.performAll_of_not_touches quiet, performs]
          exact ahead
        · -- The insert will overwrite the worker's text, with the text the
          -- row still has.
          have unrevised : Unrevised tm id seen := by
            rw [← seenSoFar]
            obtain ⟨_, live, _, split, touched, _⟩ := inserts
            refine unovertaken ⟨action, by rw [planned]; rfl, touches⟩
              ⟨live, ?_, touched⟩
            rw [split]
            simp
          rw [inserts.performAll, ← unchanged unrevised]
          exact ahead_now
  | written kept untargeted spared ahead =>
      rw [planned, List.forall_mem_cons] at spared
      refine .written (same ▸ kept) untargeted spared.2 ?_
      refine (Content.performAll_congr ?_ _).symm ▸ ahead
      exact Content.perform_of_not_touches spared.1 state.sink

/-- The worker removes the next claimed row. -/
theorem Journey.markDone
    (journey : Journey setup tm id seen now state)
    {done : ClaimedRow}
    {rows : List ClaimedRow}
    (working : state.worker = .working [] (done :: rows)) :
    Journey setup tm id seen now
      { state with
        store := state.store.markDone done.sourceTable done.rowId
        worker := if rows.isEmpty then .idle else .working [] rows } := by
  obtain ⟨batch, held⟩ := worker_markDone working
  have spent : ∀ action ∈ (if rows.isEmpty then Worker.idle
      else .working [] rows).batch, ¬action.Touches (tm.rowKey id) := by
    rw [batch]
    simp
  cases journey with
  | staged row present pending unheld spared inside ahead =>
      rw [held, List.mem_cons, not_or] at unheld
      refine .staged row ?_ pending unheld.2 spent inside ahead
      rw [BackfillStore.lookup_markDone, if_neg unheld.1]
      exact present
  | claimed row present taken holds untargeted text once =>
      have idle : state.worker.batch = [] := by simp [Worker.batch, working]
      obtain ⟨before, action, after, split, _⟩ := once
      rw [idle] at split
      cases before <;> cases split
  | written kept untargeted spared ahead =>
      refine .written ?_ untargeted spent ahead
      intro row present
      rw [BackfillStore.lookup_markDone] at present
      split at present <;> rename_i other
      · cases present
      · obtain ⟨taken, holds⟩ := kept row present
        rw [held, List.mem_cons] at holds
        exact ⟨taken, holds.resolve_left other⟩

/-- The worker claims rows. -/
theorem Journey.claim
    (found : findMapping setup.mappings tm.sourceTable = some tm)
    (separate : Separate setup.mappings)
    (named : id ≠ "")
    (filled : ∀ text ∈ now, text ≠ "")
    (truthful : Truthful tm id now state.stream)
    (labelled : AllLabelled setup state)
    {selected : List (String × String)}
    (undisturbed : Undisturbed setup (tm.sourceTable, id) state
      (.claim selected))
    (idle : state.worker = .idle)
    (selects : state.store.Selects setup.claimBatchSize selected)
    (journey : Journey setup tm id seen now state) :
    Journey setup tm id seen now
      { state with
        store := (state.store.claimPending selected).2
        worker := .working
          (plan setup.mappings
            ((state.store.claimPending selected).1.map toChangeEvent))
          (state.store.claimPending selected).1 } := by
  cases journey with
  | staged row present pending unheld spared inside ahead =>
      by_cases chosen : (tm.sourceTable, id) ∈ selected
      · have untargeted : state.intake.target? ≠ some (tm.sourceTable, id) :=
          fun targeted => undisturbed targeted chosen
        rw [Intake.latest_of_untargeted untargeted] at ahead
        refine .claimed { row with status := .claimed } ?_ rfl ?_ untargeted
          _ ?_ inside ahead
        · simp [present, chosen]
        · exact (mem_claimed_iff present _).mpr chosen
        · exact writesOnce_plan_claimed found separate labelled selects.1
            chosen present named (ahead.ne_empty truthful filled _ rfl)
      · refine .staged row ?_ pending ?_
          (plan_claimed_not_touches found separate labelled chosen) inside
          ahead
        · simp [present, chosen]
        · exact mt (mem_claimed_iff present _).mp chosen
  | claimed row present taken held =>
      rw [idle] at held
      cases held
  | written kept untargeted spared ahead =>
      have absent : state.store.rows.lookup (tm.sourceTable, id) = none := by
        cases present : state.store.rows.lookup (tm.sourceTable, id) with
        | none => rfl
        | some row =>
            have held := (kept row present).2
            rw [idle] at held
            cases held
      refine .written ?_ untargeted
        (plan_claimed_not_touches found separate labelled
          (not_mem_selected selects absent)) ahead
      simp [absent]

/-! ## Whole runs -/

/-- A row that does not exist at the start of the stream, which may insert and
then update it.  It waits in the store if the dump came after its insert, and
then shows a text the source has at some point of the stream. -/
structure InsertsRow (setup : Setup) (tm : TableMapping) (id : String)
    (start : State) : Prop extends MappedRow setup tm id start where
  positive : 0 < setup.claimBatchSize
  image :
    (∃ rowData, start.store.rows.lookup (tm.sourceTable, id) =
        some ⟨rowData, .pending⟩ ∧
      Ahead tm id none start.stream
        (some (columnText rowData tm.embedSource))) ∨
    start.store.rows.lookup (tm.sourceTable, id) = none ∧
      start.sink (tm.rowKey id) = none
  kinds : ∀ event ∈ start.stream, event.op ≠ .truncate ∧
    (Concerns tm id event → event.op = .insert ∨ event.op = .update)
  truthful : Truthful tm id none start.stream

/-- Once nothing is under way, the sink shows the text the row has after the
stream, which is the one its last insert or update sent. -/
def ShowsLastText (tm : TableMapping) (id : String)
    (stream : List ChangeEvent) (state : State) : Prop :=
  Quiescent state →
    state.sink (tm.rowKey id) = stream.foldl (textAfter tm id) none ∧
    ∀ event, LastAbout tm id stream event → textUnsent tm event = false →
      state.sink (tm.rowKey id) = some (newText tm event)

/-- What holds in every state of a run in which no update meets a claim and no
insert is overtaken. -/
structure Accompanies (setup : Setup) (tm : TableMapping) (id : String)
    (stream : List ChangeEvent) (state : State) : Prop where
  labelled : AllLabelled setup state
  exhausted : Exhausted state
  kinds : ∀ event ∈ state.stream, event.op ≠ .truncate ∧
    (Concerns tm id event → event.op = .insert ∨ event.op = .update)
  image : ∃ seen now, stream = seen ++ state.stream ∧
    (∀ text ∈ now, text ≠ "") ∧
    Truthful tm id now state.stream ∧
    state.stream.foldl (textAfter tm id) now =
      stream.foldl (textAfter tm id) none ∧
    Journey setup tm id seen now state

theorem InsertsRow.accompanies
    {start : State}
    (inserts : InsertsRow setup tm id start) :
    Accompanies setup tm id start.stream start := by
  have idle := inserts.starts
  have flight : start.inFlight setup = [] := by
    simp [State.inFlight, idle.batch, idle.queue, idle.intake, Intake.posted,
      plan]
  refine ⟨idle.allLabelled, ?_, inserts.kinds, [], none, rfl, by simp,
    inserts.truthful, rfl, ?_⟩
  · intro finished
    cases idle.worker.symm.trans finished
  rcases inserts.image with ⟨rowData, present, ahead⟩ | ⟨absent, empty⟩
  · refine .staged ⟨rowData, .pending⟩ present rfl ?_ ?_ ?_ ?_
    · simp [Worker.claimed, idle.worker]
    · simp [Worker.batch, idle.worker]
    · rw [flight]
      exact .inl (by simp)
    · simpa [Intake.latest, idle.intake] using ahead
  · refine .written (by simp [absent]) (by simp [idle.intake, Intake.target?])
      (by simp [Worker.batch, idle.worker]) ?_
    rw [flight]
    exact empty ▸ ahead_now

/-- One step, whoever takes it. -/
theorem Journey.step
    {stream : List ChangeEvent}
    (found : findMapping setup.mappings tm.sourceTable = some tm)
    (separate : Separate setup.mappings)
    (named : id ≠ "")
    {label : Label}
    (labelled : AllLabelled setup state)
    (kinds : ∀ event ∈ state.stream, event.op ≠ .truncate ∧
      (Concerns tm id event → event.op = .insert ∨ event.op = .update))
    (filled : ∀ text ∈ now, text ≠ "")
    (truthful : Truthful tm id now state.stream)
    (seenSoFar : arrived stream state = seen)
    (undisturbed : Undisturbed setup (tm.sourceTable, id) state label)
    (unovertaken : Unovertaken setup tm id stream state label)
    (taken : step setup state label = some next)
    (journey : Journey setup tm id seen now state) :
    next.stream = state.stream ∧ Journey setup tm id seen now next ∨
      ∃ event, state.stream = event :: next.stream ∧
        Journey setup tm id (seen ++ [event]) (textAfter tm id now event)
          next := by
  have moves := moves_of_step taken
  cases label with
  | receive =>
      exact .inr
        (journey.receive found separate named kinds truthful undisturbed moves)
  | merge =>
      cases moves with
      | merge sourceTable rowId merged merging =>
          exact .inl ⟨rfl, journey.merge merging⟩
  | post =>
      cases moves with
      | post event posting =>
          refine .inl ⟨rfl, journey.frame (fun unrevised => unrevised)
            (fun _ ahead => ahead) rfl ?_ ?_ rfl rfl [] ?_ (by simp) rfl⟩
          · simp [Intake.latest, posting]
          · simp [Intake.target?]
          · simp [State.inFlight, Intake.posted, posting]
  | take count =>
      cases moves with
      | take _ done =>
          exact .inl ⟨rfl, journey.frame (fun unrevised => unrevised)
            (fun _ ahead => ahead) rfl (fun _ => rfl)
            (fun targeted => targeted) rfl rfl [] (inFlight_take done count)
            (by simp) rfl⟩
  | write =>
      cases moves with
      | write action batch planned => exact .inl ⟨rfl, journey.write planned⟩
  | claim selected =>
      cases moves with
      | finish idle selects =>
          refine .inl ⟨rfl, journey.frame (fun unrevised => unrevised)
            (fun _ ahead => ahead) rfl (fun _ => rfl)
            (fun targeted => targeted) ?_ ?_ [] ?_ (by simp) rfl⟩
          · simp [Worker.batch, idle]
          · simp [Worker.claimed, idle]
          · simp [State.inFlight]
      | claim _ idle selects _ =>
          exact .inl ⟨rfl, journey.claim found separate named filled truthful
            labelled undisturbed idle selects⟩
  | workerWrite =>
      cases moves with
      | workerWrite action batch rows working =>
          exact .inl ⟨rfl, journey.workerWrite seenSoFar unovertaken working⟩
  | markDone =>
      cases moves with
      | markDone done rows working =>
          exact .inl ⟨rfl, journey.markDone working⟩

theorem arrived_eq
    {stream : List ChangeEvent}
    (split : stream = seen ++ state.stream) :
    arrived stream state = seen := by
  rw [arrived, split, List.length_append, Nat.add_sub_cancel,
    List.take_left]

theorem step_accompanies
    {stream : List ChangeEvent}
    (positive : 0 < setup.claimBatchSize)
    (found : findMapping setup.mappings tm.sourceTable = some tm)
    (separate : Separate setup.mappings)
    (named : id ≠ "")
    {label : Label}
    (accompanies : Accompanies setup tm id stream state)
    (undisturbed : Undisturbed setup (tm.sourceTable, id) state label)
    (unovertaken : Unovertaken setup tm id stream state label)
    (taken : step setup state label = some next) :
    Accompanies setup tm id stream next := by
  obtain ⟨labelled, exhausted, kinds, seen, now, split, filled, truthful, leads,
    journey⟩ := accompanies
  have moved := journey.step found separate named labelled kinds filled
    truthful (arrived_eq split) undisturbed unovertaken taken
  have labelled := step_allLabelled labelled taken
  have exhausted := step_exhausted positive exhausted taken
  rcases moved with ⟨same, moved⟩ | ⟨event, arrives, moved⟩
  · rw [← same] at split kinds truthful leads
    exact ⟨labelled, exhausted, kinds, seen, now, split, filled, truthful,
      leads, moved⟩
  · rw [arrives] at split kinds truthful leads
    rw [List.forall_mem_cons] at kinds
    refine ⟨labelled, exhausted, kinds.2, _, _, ?_, ?_, truthful.2, leads,
      moved⟩
    · simpa using split
    · have ahead : Ahead tm id now [event] _ := Or.inr rfl
      exact ahead.ne_empty ⟨truthful.1, trivial⟩ filled

/-- With nothing under way, the image of the row is in the sink. -/
theorem Accompanies.sink_eq
    {stream : List ChangeEvent}
    (accompanies : Accompanies setup tm id stream state)
    (quiescent : Quiescent state) :
    state.sink (tm.rowKey id) = stream.foldl (textAfter tm id) none := by
  obtain ⟨_, exhausted, _, seen, now, _, _, _, leads, journey⟩ := accompanies
  rw [quiescent.stream] at leads
  cases journey with
  | staged row present pending =>
      obtain ⟨rowData, status⟩ := row
      cases pending
      have waiting := BackfillStore.mem_pendingKeys.mpr ⟨rowData, present⟩
      rw [exhausted quiescent.worker] at waiting
      cases waiting
  | claimed row present taken held =>
      rw [quiescent.worker] at held
      cases held
  | written kept untargeted spared ahead =>
      rw [inFlight_of_quiescent quiescent, quiescent.stream] at ahead
      exact Eq.trans ahead leads

/-- A live insert does not overwrite newer data in a run in which no update of
the row meets a claim, and the worker does not write the row while the insert
is under way and an update has arrived. -/
theorem showsLastText_of_reachable
    (setup : Setup)
    (tm : TableMapping)
    (id : String)
    (start state : State)
    (inserts : InsertsRow setup tm id start)
    (reachable : Reachable (step setup)
      (fun before label =>
        Undisturbed setup (tm.sourceTable, id) before label ∧
          Unovertaken setup tm id start.stream before label) start state) :
    ShowsLastText tm id start.stream state := by
  have accompanies : Accompanies setup tm id start.stream state :=
    reachable.invariant _ inserts.accompanies
      fun _ _ _ before permitted taken =>
        step_accompanies inserts.positive inserts.found inserts.separate
          inserts.named before permitted.1 permitted.2 taken
  intro quiescent
  have shown := accompanies.sink_eq quiescent
  refine ⟨shown, fun event last sent => ?_⟩
  have kind : event.op = .insert ∨ event.op = .update := by
    obtain ⟨before, after, split, about, _⟩ := last
    refine (inserts.kinds event ?_).2 about
    rw [split]
    exact List.mem_append_right _ List.mem_cons_self
  rw [shown, foldl_textAfter_of_lastAbout last kind sent]

/-! ## A note that is inserted while the store is filled -/

/-- One note waits, and its insert and an update of it are still to come. -/
def insertStart : State :=
  { stream := [noteInsert "1" "old", noteUpdate "1" "new"]
    store := stagedNotes [noteRow "1" "old"] }

theorem insertsRow_insertStart :
    InsertsRow notesSetup notes "1" insertStart where
  toMappedRow := mappedRow_stagedNotes (by decide) _ _
  positive := by decide
  image := .inl ⟨_, rfl, .inr (.inl rfl)⟩
  kinds := by decide
  truthful :=
    ⟨fun _ => ⟨by decide, rfl, by decide⟩,
      fun _ => ⟨by decide, .inr (by decide), .inl (by decide)⟩, trivial⟩

/-- The insert is written before the worker claims the merged note. -/
theorem showsLastText_insertedRun :
    ∃ state, Reachable (step notesSetup)
        (fun before label =>
          Undisturbed notesSetup ("notes", "1") before label ∧
            Unovertaken notesSetup notes "1" insertStart.stream before label)
        insertStart state ∧
      Quiescent state ∧ state.sink (notes.rowKey "1") = some "new" := by
  obtain ⟨state, reachable, passed⟩ := exists_reachable_of_guarded
    (fun before label =>
      Undisturbed notesSetup ("notes", "1") before label ∧
        Unovertaken notesSetup notes "1" insertStart.stream before label)
    [.receive, .post, .receive, .take 1, .merge, .write,
      .claim [("notes", "1")], .workerWrite, .markDone, .claim []]
    (show (run (guarded (step notesSetup) fun before label =>
      Undisturbed notesSetup ("notes", "1") before label ∧
        Unovertaken notesSetup notes "1" insertStart.stream before label)
          insertStart _).any State.isQuiescent = true by decide)
  have quiescent := quiescent_of_isQuiescent passed
  exact ⟨state, reachable, quiescent,
    (showsLastText_of_reachable notesSetup notes "1" insertStart state
      insertsRow_insertStart reachable quiescent).2 (noteUpdate "1" "new")
      ⟨[noteInsert "1" "old"], [], rfl, by decide, by simp⟩ (by decide)⟩

/-- The insert waits in the queue while the worker writes the merged note, and
then overwrites it. -/
theorem not_showsLastText_overtakenRun :
    InsertsRow notesSetup notes "1" insertStart ∧
      ∃ state, Reachable (step notesSetup)
          (Undisturbed notesSetup ("notes", "1")) insertStart state ∧
        Quiescent state ∧ state.sink (notes.rowKey "1") = some "old" ∧
        ¬ShowsLastText notes "1" insertStart.stream state := by
  refine ⟨insertsRow_insertStart, ?_⟩
  obtain ⟨state, reachable, passed⟩ := exists_reachable_of_guarded
    (Undisturbed notesSetup ("notes", "1"))
    [.receive, .post, .receive, .merge, .claim [("notes", "1")], .workerWrite,
      .take 1, .write, .markDone, .claim []]
    (show (run (guarded (step notesSetup)
      (Undisturbed notesSetup ("notes", "1"))) insertStart _).any
        (fun state => state.isQuiescent &&
          state.sink (notes.rowKey "1") == some "old") = true by decide)
  simp only [Bool.and_eq_true, beq_iff_eq] at passed
  obtain ⟨quiescent, stale⟩ := passed
  have quiescent := quiescent_of_isQuiescent quiescent
  refine ⟨state, reachable, quiescent, stale, fun shows => ?_⟩
  have text := (shows quiescent).2 (noteUpdate "1" "new")
    ⟨[noteInsert "1" "old"], [], rfl, by decide, by simp⟩ (by decide)
  rw [stale] at text
  exact absurd text (by decide)

end Backfill
end Walkrie
