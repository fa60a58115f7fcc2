import Walkrie.Sink.Durable
import Walkrie.Backfill.Race

/-!
# Draining the store

`BackfillWorker::run` claims a batch of staged rows, hands them to every sink
and removes them, until nothing is pending.  It removes the rows of a batch
when no exception was thrown, and an embedding sink throws none for a write
that has failed.  A step is one statement of the loop, and every statement may
throw.
-/

namespace Walkrie
namespace Backfill
namespace Drain

open Sink Dispatcher

/-- The statement `run` executes next. -/
inductive Phase
  /-- Loading the configuration, creating the sinks and opening the store. -/
  | starting
  | claiming
  | rehydrating (claimed : List ClaimedRow)
  /-- `call_batch` of the sink at this position. -/
  | dispatching (claimed : List ClaimedRow) (position : Nat)
  /-- `mark_done` of the first of the rows that remain. -/
  | removing (remaining : List ClaimedRow)
  | returned (drained : Bool)
  deriving DecidableEq

/-- An invocation of `call_batch` of an embedding sink. -/
structure Call (φ : Type) where
  rows : List ClaimedRow
  position : Nat
  applied : Applied φ

/-- The store, the worker, and the invocations it has made. -/
structure State (φ : Type) where
  store : BackfillStore
  phase : Phase := .starting
  calls : List (Call φ) := []

inductive Label (φ : Type)
  | start
  /-- `claim_pending` selects these rows. -/
  | claim (selected : List (String × String))
  | rehydrate
  /-- `call_batch` of the next sink, with what it is answered. -/
  | call (environment : Environment φ)
  | markDone
  /-- The statement throws. -/
  | throw

/-- The claim batch size and the sinks of the configuration. -/
structure Setup where
  limit : Nat
  sinks : List (SinkHandle Target)

variable {φ : Type}

/-- The loop over the sinks. -/
def Setup.dispatch (setup : Setup) (claimed : List ClaimedRow)
    (position : Nat) : Phase :=
  if position < setup.sinks.length then .dispatching claimed position
  else .removing claimed

/-- What follows the call of a sink.  An embedding sink throws when one of the
answers it gets is an exception. -/
def callSink (setup : Setup) (state : State φ) (claimed : List ClaimedRow)
    (position : Nat) (sink : Target) (environment : Environment φ) : State φ :=
  match sink.callBatch environment (claimed.map toChangeEvent) with
  | none => { state with phase := setup.dispatch claimed (position + 1) }
  | some applied =>
      { state with
        phase :=
          if applied.returned then setup.dispatch claimed (position + 1)
          else .returned false
        calls := state.calls ++ [{ rows := claimed, position, applied }] }

/-- One statement of `run`. -/
def step (setup : Setup) (state : State φ) : Label φ → Option (State φ)
  | .start =>
      match state.phase with
      | .starting => some { state with phase := .claiming }
      | _ => none
  | .claim selected =>
      match state.phase with
      | .claiming =>
          if state.store.Selects setup.limit selected then
            let (claimed, store) := state.store.claimPending selected
            some { state with
              store
              phase :=
                if claimed.isEmpty then .returned true
                else .rehydrating claimed }
          else none
      | _ => none
  | .rehydrate =>
      match state.phase with
      | .rehydrating claimed =>
          some { state with phase := setup.dispatch claimed 0 }
      | _ => none
  | .call environment =>
      match state.phase with
      | .dispatching claimed position =>
          setup.sinks[position]?.map fun handle =>
            callSink setup state claimed position handle.sink environment
      | _ => none
  | .markDone =>
      match state.phase with
      | .removing (row :: remaining) =>
          some { state with
            store := state.store.markDone row.sourceTable row.rowId
            phase :=
              if remaining.isEmpty then .claiming else .removing remaining }
      | _ => none
  | .throw =>
      match state.phase with
      | .starting | .claiming | .rehydrating _ | .removing _ =>
          some { state with phase := .returned false }
      | .dispatching _ position =>
          -- An embedding sink throws as its answers say.
          match setup.sinks[position]? with
          | some ⟨.other _, _⟩ => some { state with phase := .returned false }
          | _ => none
      | .returned _ => none

/-- What a step can do. -/
inductive Moves (setup : Setup) (state : State φ) : Label φ → State φ → Prop
  | start
      (phase : state.phase = .starting) :
      Moves setup state .start { state with phase := .claiming }
  | claim
      (selected : List (String × String))
      (phase : state.phase = .claiming)
      (selects : state.store.Selects setup.limit selected) :
      Moves setup state (.claim selected)
        { state with
          store := (state.store.claimPending selected).2
          phase :=
            if (state.store.claimPending selected).1.isEmpty then
              .returned true
            else .rehydrating (state.store.claimPending selected).1 }
  | rehydrate
      (claimed : List ClaimedRow)
      (phase : state.phase = .rehydrating claimed) :
      Moves setup state .rehydrate
        { state with phase := setup.dispatch claimed 0 }
  | call
      (environment : Environment φ)
      (claimed : List ClaimedRow)
      (position : Nat)
      (handle : SinkHandle Target)
      (phase : state.phase = .dispatching claimed position)
      (present : setup.sinks[position]? = some handle) :
      Moves setup state (.call environment)
        (callSink setup state claimed position handle.sink environment)
  | markDone
      (row : ClaimedRow)
      (remaining : List ClaimedRow)
      (phase : state.phase = .removing (row :: remaining)) :
      Moves setup state .markDone
        { state with
          store := state.store.markDone row.sourceTable row.rowId
          phase :=
            if remaining.isEmpty then .claiming else .removing remaining }
  | throw :
      Moves setup state .throw { state with phase := .returned false }

theorem moves_of_step
    {setup : Setup}
    {state next : State φ}
    {label : Label φ}
    (taken : step setup state label = some next) :
    Moves setup state label next := by
  cases label with
  | start =>
      simp only [step] at taken
      split at taken <;> rename_i phase
      · cases taken
        exact .start phase
      · cases taken
  | claim selected =>
      simp only [step] at taken
      split at taken <;> rename_i phase
      · split at taken <;> rename_i selects
        · cases taken
          exact .claim selected phase selects
        · cases taken
      · cases taken
  | rehydrate =>
      simp only [step] at taken
      split at taken <;> rename_i phase
      · cases taken
        exact .rehydrate _ phase
      · cases taken
  | call environment =>
      simp only [step] at taken
      split at taken <;> rename_i phase
      · obtain ⟨handle, present, rfl⟩ := Option.map_eq_some_iff.mp taken
        exact .call environment _ _ handle phase present
      · cases taken
  | markDone =>
      simp only [step] at taken
      split at taken <;> rename_i phase
      · cases taken
        exact .markDone _ _ phase
      · cases taken
  | throw =>
      simp only [step] at taken
      split at taken
      all_goals try split at taken
      all_goals cases taken
      all_goals exact .throw

/-! ## Rows that are removed -/

/-- In the invocation of the sink at this position for a batch with the row,
the planned write was issued and returned true. -/
def Upserted (calls : List (Call φ)) (position : Nat) (row : ClaimedRow)
    (action : BatchEvent) : Prop :=
  ∃ call ∈ calls, call.position = position ∧ row ∈ call.rows ∧
    ∃ entry ∈ call.applied.writes, action.Fulfilled entry

/-- Each of the first sinks, if it is required and plans an upsert for the
row, has made it. -/
def Served (setup : Setup) (calls : List (Call φ)) (bound : Nat)
    (row : ClaimedRow) : Prop :=
  ∀ position < bound, ∀ handle mappings action,
    setup.sinks[position]? = some handle → handle.required = true →
    handle.sink.mappings? = some mappings →
    planEvent mappings (toChangeEvent row) = some action →
      Upserted calls position row action

/-- A row of the store the worker started with is still there, or every
required sink that plans an upsert for it has made it. -/
def RemovedSafely (setup : Setup) (start : BackfillStore) (state : State φ) :
    Prop :=
  ∀ table id stored, start.rows.lookup (table, id) = some stored →
    state.store.rows.lookup (table, id) = none →
      Served setup state.calls setup.sinks.length
        ⟨table, id, stored.rowData⟩

/-- When `call_batch` of a required embedding sink returns, the provider has
answered one vector per text and every write has been accepted. -/
def Cooperative (setup : Setup) (state : State φ) : Label φ → Prop
  | .call environment =>
      ∀ claimed position handle mappings,
        state.phase = .dispatching claimed position →
        setup.sinks[position]? = some handle → handle.required = true →
        handle.sink.mappings? = some mappings →
        (callBatch environment mappings
          (claimed.map toChangeEvent)).returned = true →
          Cooperates environment mappings (claimed.map toChangeEvent)
  | _ => True

/-! ## The invariant -/

section Invariant

variable {setup : Setup}
variable {start : BackfillStore}
variable {calls later : List (Call φ)}

/-- The worker was handed the row as it was at the start. -/
def Original (start : BackfillStore) (row : ClaimedRow) : Prop :=
  start.getRowData row.sourceTable row.rowId = some row.rowData

/-- How far the rows at hand have been served. -/
def Phase.Progress (setup : Setup) (start : BackfillStore)
    (calls : List (Call φ)) : Phase → Prop
  | .starting | .claiming | .returned _ => True
  | .rehydrating claimed => ∀ row ∈ claimed, Original start row
  | .dispatching claimed position =>
      ∀ row ∈ claimed, Original start row ∧ Served setup calls position row
  | .removing remaining =>
      ∀ row ∈ remaining, Original start row ∧
        Served setup calls setup.sinks.length row

structure Sound (setup : Setup) (start : BackfillStore) (state : State φ) :
    Prop where
  /-- The worker changes no data. -/
  kept : ∀ table id data, state.store.getRowData table id = some data →
    start.getRowData table id = some data
  progress : state.phase.Progress setup start state.calls
  safe : RemovedSafely setup start state

theorem Served.append
    {bound : Nat}
    {row : ClaimedRow}
    (served : Served setup calls bound row) :
    Served setup (calls ++ later) bound row := by
  intro position below handle mappings action present required embedding
    planned
  obtain ⟨call, member, made⟩ := served position below handle mappings action
    present required embedding planned
  exact ⟨call, List.mem_append_left later member, made⟩

/-- A position that owes nothing is as good as served. -/
theorem Served.succ
    {position : Nat}
    {row : ClaimedRow}
    (served : Served setup calls position row)
    (here : ∀ handle mappings action,
      setup.sinks[position]? = some handle → handle.required = true →
      handle.sink.mappings? = some mappings →
      planEvent mappings (toChangeEvent row) = some action →
        Upserted calls position row action) :
    Served setup calls (position + 1) row := by
  intro other below
  rcases Nat.lt_succ_iff_lt_or_eq.mp below with before | rfl
  · exact served other before
  · exact here

/-- The loop over the sinks ends with the rows served. -/
theorem progress_dispatch
    {claimed : List ClaimedRow}
    {position : Nat}
    (bounded : position ≤ setup.sinks.length)
    (served : ∀ row ∈ claimed,
      Original start row ∧ Served setup calls position row) :
    (setup.dispatch claimed position).Progress setup start calls := by
  unfold Setup.dispatch
  split <;> rename_i more
  · exact served
  · have last : position = setup.sinks.length := by omega
    rw [last] at served
    exact served

/-- A durable invocation has made the planned write of each of its rows. -/
theorem upserted_of_durable
    {claimed : List ClaimedRow}
    {mappings : List TableMapping}
    {applied : Applied φ}
    (durable : Durable mappings (claimed.map toChangeEvent) applied.writes)
    {row : ClaimedRow}
    (member : row ∈ claimed)
    {action : BatchEvent}
    (planned : planEvent mappings (toChangeEvent row) = some action)
    (position : Nat) :
    Upserted (calls ++ [⟨claimed, position, applied⟩]) position row action := by
  have among : action ∈ plan mappings (claimed.map toChangeEvent) :=
    List.mem_filterMap.mpr ⟨_, List.mem_map_of_mem member, planned⟩
  have made : ∀ {batch : List BatchEvent} {writes : WriteLog φ},
      List.Forall₂ BatchEvent.Fulfilled batch writes → action ∈ batch →
        ∃ entry ∈ writes, action.Fulfilled entry := by
    intro batch writes fulfilled
    induction fulfilled with
    | nil => simp
    | cons first _ inductionHypothesis =>
        intro among
        rcases List.mem_cons.mp among with rfl | among
        · exact ⟨_, List.mem_cons_self, first⟩
        · obtain ⟨entry, member, fulfilled⟩ := inductionHypothesis among
          exact ⟨entry, List.mem_cons_of_mem _ member, fulfilled⟩
  exact ⟨_, List.mem_append_right calls List.mem_cons_self, rfl, member,
    made durable among⟩

/-- The call of a sink keeps the rows at hand served up to it. -/
theorem progress_callSink
    {state : State φ}
    {claimed : List ClaimedRow}
    {position : Nat}
    {handle : SinkHandle Target}
    {environment : Environment φ}
    (phase : state.phase = .dispatching claimed position)
    (present : setup.sinks[position]? = some handle)
    (cooperative : Cooperative setup state (.call environment))
    (progress : state.phase.Progress setup start state.calls) :
    (callSink setup state claimed position handle.sink
        environment).phase.Progress setup start
      (callSink setup state claimed position handle.sink
        environment).calls := by
  have bounded : position + 1 ≤ setup.sinks.length :=
    (List.getElem?_eq_some_iff.mp present).1
  have same : ∀ other, setup.sinks[position]? = some other → other = handle :=
    fun other found => Option.some.inj (found.symm.trans present)
  rw [phase] at progress
  cases embedding : handle.sink.mappings? with
  | none =>
      have answered : handle.sink.callBatch environment
          (claimed.map toChangeEvent) = none := by
        cases sink : handle.sink <;> simp [sink, Target.mappings?] at embedding
        rfl
      simp only [callSink, answered]
      refine progress_dispatch bounded fun row member => ?_
      obtain ⟨original, served⟩ := progress row member
      refine ⟨original, served.succ ?_⟩
      intro other mappings action found _ mapped
      rw [same other found, embedding] at mapped
      cases mapped
  | some mappings =>
      simp only [callSink, Target.callBatch_eq embedding]
      split <;> rename_i returned
      · refine progress_dispatch bounded fun row member => ?_
        obtain ⟨original, served⟩ := progress row member
        refine ⟨original, served.append.succ ?_⟩
        intro other own action found required mapped planned
        cases same other found
        rw [embedding] at mapped
        cases mapped
        have durable := (callBatch_durable_iff returned).mpr
          (cooperative claimed position handle mappings phase present required
            embedding returned)
        exact upserted_of_durable durable member planned position
      · trivial

theorem callSink_store
    (state : State φ)
    (claimed : List ClaimedRow)
    (position : Nat)
    (sink : Target)
    (environment : Environment φ) :
    (callSink setup state claimed position sink environment).store =
      state.store := by
  unfold callSink
  split <;> rfl

/-- No invocation is forgotten. -/
theorem callSink_calls
    (state : State φ)
    (claimed : List ClaimedRow)
    (position : Nat)
    (sink : Target)
    (environment : Environment φ) :
    ∃ made, (callSink setup state claimed position sink environment).calls =
      state.calls ++ made := by
  unfold callSink
  split
  · exact ⟨[], (List.append_nil _).symm⟩
  · exact ⟨_, rfl⟩

theorem step_sound
    {state next : State φ}
    {label : Label φ}
    (sound : Sound setup start state)
    (cooperative : Cooperative setup state label)
    (taken : step setup state label = some next) :
    Sound setup start next := by
  obtain ⟨kept, progress, safe⟩ := sound
  cases moves_of_step taken with
  | start phase => exact ⟨kept, trivial, safe⟩
  | claim selected phase selects =>
      refine ⟨?_, ?_, ?_⟩
      · intro table id data
        rw [BackfillStore.getRowData_claimPending]
        exact kept table id data
      · simp only
        split
        · trivial
        · intro row member
          exact kept _ _ _ (BackfillStore.mem_claimPending.mp member).2
      · intro table id stored present gone
        refine safe table id stored present ?_
        simpa using gone
  | rehydrate claimed phase =>
      refine ⟨kept, progress_dispatch (Nat.zero_le _) ?_, safe⟩
      rw [phase] at progress
      intro row member
      exact ⟨progress row member, fun _ below => absurd below (by omega)⟩
  | call environment claimed position handle phase present =>
      refine ⟨?_, progress_callSink phase present cooperative progress, ?_⟩
      · rw [callSink_store]
        exact kept
      · unfold RemovedSafely
        rw [callSink_store]
        obtain ⟨made, calls⟩ := callSink_calls state claimed position
          handle.sink environment
        rw [calls]
        intro table id stored present gone
        exact (safe table id stored present gone).append
  | markDone row remaining phase =>
      rw [phase] at progress
      obtain ⟨⟨original, served⟩, rest⟩ := List.forall_mem_cons.mp progress
      refine ⟨?_, ?_, ?_⟩
      · intro table id data found
        simp only [BackfillStore.getRowData, BackfillStore.lookup_markDone]
          at found
        split at found
        · cases found
        · exact kept table id data found
      · simp only
        split
        · trivial
        · exact rest
      · intro table id stored present gone
        simp only [BackfillStore.lookup_markDone] at gone
        split at gone <;> rename_i same
        · -- The row that is removed is one that has been served.
          cases same
          have data : row.rowData = stored.rowData := by
            simpa [Original, BackfillStore.getRowData, present] using
              original.symm
          rw [← data]
          exact served
        · exact safe table id stored present gone
  | throw => exact ⟨kept, trivial, safe⟩

/-- As long as required sinks return only from batches they have written,
whatever else fails, the worker removes no row that a required sink should
have and has not got. -/
theorem removedSafely_of_reachable
    (setup : Setup)
    (start : BackfillStore)
    (state : State φ)
    (reachable : Transition.Reachable (step setup) (Cooperative setup)
      { store := start } state) :
    RemovedSafely setup start state := by
  have initial : Sound setup start ({ store := start } : State φ) := by
    refine ⟨fun _ _ _ found => found, trivial, ?_⟩
    intro table id stored present gone
    rw [present] at gone
    cases gone
  exact (reachable.invariant (Sound setup start) initial
    fun _ _ _ sound cooperative taken =>
      step_sound sound cooperative taken).safe

end Invariant

/-! ## Draining one note -/

/-- One required sink, and the claim batch size workers are spawned with. -/
def noteSetup : Setup :=
  { limit := 200, sinks := [⟨.pgEmbedding [notes], true⟩] }

/-- One note is claimed, handed to the sink, whose write returns the given
result, and removed. -/
def drainRun (result : Bool) : List (Label Nat) :=
  [.start, .claim [("notes", "1")], .rehydrate,
    .call (uniformEnvironment result), .markDone, .claim []]

/-- The worker has returned, the note is gone from the store, and every write
has returned the given result. -/
def State.isDrained (result : Bool) (state : State φ) : Bool :=
  state.phase = .returned true ∧
    state.store.rows.lookup ("notes", "1") = none ∧
    state.calls.all fun call =>
      call.applied.writes.all fun entry => entry.2 = result

theorem cooperates_uniformEnvironment
    (mappings : List TableMapping)
    (events : List ChangeEvent) :
    Cooperates (uniformEnvironment true) mappings events := by
  refine ⟨(textsToEmbed (plan mappings events)).map fun _ => [0], .inr rfl,
    by simp, by simp, ?_⟩
  have accepted : ∀ (writes : List (Write Nat)) (count : Nat),
      Accepts (uniformEnvironment true) count writes := by
    intro writes
    induction writes with
    | nil => exact fun _ => trivial
    | cons write writes inductionHypothesis =>
        exact fun count => ⟨rfl, inductionHypothesis (count + 1)⟩
  exact accepted _ 0

/-- A write that returns true lets the note go. -/
theorem removedSafely_drainRun :
    ∃ state : State Nat,
      Transition.Reachable (step noteSetup) (Cooperative noteSetup)
        { store := stagedNotes [noteRow "1" "text"] } state ∧
      state.isDrained true = true ∧
      RemovedSafely noteSetup (stagedNotes [noteRow "1" "text"]) state := by
  have allowed : ∀ (before : State Nat), ∀ label ∈ drainRun true,
      Cooperative noteSetup before label := by
    intro before label member
    cases label with
    | call environment =>
        have same : environment = uniformEnvironment true := by
          simpa [drainRun] using member
        intro claimed position handle mappings _ _ _ _ _
        rw [same]
        exact cooperates_uniformEnvironment mappings _
    | start | claim | rehydrate | markDone | throw => trivial
  obtain ⟨state, reachable, drained⟩ := Transition.exists_reachable_of_run
    (Cooperative noteSetup) (drainRun true) allowed
    (show (Transition.run (step noteSetup)
        { store := stagedNotes [noteRow "1" "text"] } (drainRun true)).any
      (State.isDrained true) = true by decide)
  exact ⟨state, reachable, drained,
    removedSafely_of_reachable noteSetup _ state reachable⟩

/-- A write that returns false lets it go all the same. -/
theorem not_removedSafely_drainRun :
    ¬∀ (setup : Setup) (start : BackfillStore) (state : State Nat),
      Transition.Reachable (step setup) (fun _ _ => True) { store := start }
        state →
      RemovedSafely setup start state := by
  intro claim
  obtain ⟨state, reachable, drained⟩ := Transition.exists_reachable_of_run
    (fun _ _ => True) (drainRun false) (fun _ _ _ => trivial)
    (show (Transition.run (step noteSetup)
        { store := stagedNotes [noteRow "1" "text"] } (drainRun false)).any
      (State.isDrained false) = true by decide)
  obtain ⟨_, gone, failed⟩ := of_decide_eq_true drained
  have safe := claim noteSetup _ state reachable "notes" "1" _ rfl gone
  obtain ⟨call, made, _, _, entry, written, fulfilled⟩ :=
    safe 0 (by decide) _ _ _ rfl rfl rfl rfl
  have rejected := List.all_eq_true.mp (List.all_eq_true.mp failed call made)
    entry written
  rw [fulfilled.2] at rejected
  cases rejected

end Drain
end Backfill
end Walkrie
