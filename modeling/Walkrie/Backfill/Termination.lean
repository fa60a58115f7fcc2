import Walkrie.Sink.Records
import Walkrie.Backfill.Sharing
import Walkrie.Backfill.Drain

/-!
# The end of the drain

The loop of `BackfillWorker::run` has no counter.  It ends because a claim
takes rows out of the pending ones and no statement that is executed beside it
puts one back.  What each statement costs is counted against the pending rows,
whichever statements of other workers and of live events come in between.
-/

namespace Walkrie
namespace Backfill
namespace Drain

open Sink Transition
open Dispatcher (SinkHandle)

variable {φ : Type}

/-! ## The worker and the others -/

/-- The statements other workers and `absorb_event` execute. -/
def concurrent : Statement → Bool
  | .claimPending _ _ | .updateRowData _ _ _ | .markDone _ _ => true
  | _ => false

/-- `absorb_event` writes by one of these statements, if it writes. -/
theorem absorbEvent_concurrent
    (mappings : List TableMapping)
    (store : BackfillStore)
    (event : ChangeEvent) :
    (absorbEvent mappings store event).1 = store ∨
      ∃ statement, concurrent statement = true ∧
        execute store statement =
          some (absorbEvent mappings store event).1 := by
  unfold absorbEvent
  split
  · exact .inl rfl
  · rename_i tm rowId kind
    exact .inr ⟨.markDone tm.sourceTable rowId, rfl, rfl⟩
  · rename_i tm rowId newRow kind
    split
    · exact .inl rfl
    · exact .inr ⟨.updateRowData tm.sourceTable rowId _, rfl, rfl⟩

/-- The worker, and the rows of each `call_batch` with the position of the
sink. -/
structure System (φ : Type) where
  worker : State φ
  passed : List (Nat × List ClaimedRow) := []

inductive Event (φ : Type)
  | own (label : Label φ)
  | other (statement : Statement)

def Event.isOwn : Event φ → Bool
  | .own _ => true
  | .other _ => false

/-- Each iteration of the loop starts with a claim. -/
def Event.isClaim : Event φ → Bool
  | .own (.claim _) => true
  | _ => false

/-- The rows the next statement of the worker passes to a sink. -/
def Phase.passes : Phase → List (Nat × List ClaimedRow)
  | .dispatching claimed position => [(position, claimed)]
  | _ => []

def systemStep (setup : Setup) (system : System φ) :
    Event φ → Option (System φ)
  | .own label =>
      (step setup system.worker label).map fun worker =>
        { worker, passed := system.passed ++ system.worker.phase.passes }
  | .other statement =>
      if concurrent statement then
        (execute system.worker.store statement).map fun store =>
          { system with worker := { system.worker with store } }
      else none

def launch (start : BackfillStore) : System φ :=
  { worker := { store := start } }

/-- The rows the sink at a position has been passed, in order. -/
def System.passedTo (system : System φ) (position : Nat) : List ClaimedRow :=
  (system.passed.filter fun pass => pass.1 = position).flatMap Prod.snd

/-- The rows of a store. -/
def staged (store : BackfillStore) : List ClaimedRow :=
  store.rows.entries.map fun row => ⟨row.1.1, row.1.2, row.2.rowData⟩

/-- The statement throws, or it is the call of an embedding sink that does. -/
def Throws (setup : Setup) (state : State φ) : Label φ → Prop
  | .throw => True
  | .call environment =>
      ∃ claimed position handle applied,
        state.phase = .dispatching claimed position ∧
          setup.sinks[position]? = some handle ∧
          handle.sink.callBatch environment (claimed.map toChangeEvent) =
            some applied ∧
          applied.returned = false
  | _ => False

/-- Only the worker executes statements, and none of them throws. -/
def Alone (setup : Setup) (system : System φ) : Event φ → Prop
  | .own label => ¬Throws setup system.worker label
  | .other _ => False

/-- What a worker started on a store can be relied on for. -/
structure Drains (φ : Type) (setup : Setup) (start : BackfillStore) :
    Prop where
  /-- It executes finitely many statements in finitely many iterations, -/
  finite : ∀ events (final : System φ),
    run (systemStep setup) (launch start) events = some final →
      events.countP Event.isOwn ≤
          (setup.sinks.length + 3) * start.pendingKeys.length + 2 ∧
        events.countP Event.isClaim ≤ start.pendingKeys.length + 1
  /-- and there is always a next one until it returns. -/
  progress : ∀ events (final : System φ),
    run (systemStep setup) (launch start) events = some final →
      (∃ drained, final.worker.phase = .returned drained) ∨
        ∃ label next, ¬Throws setup final.worker label ∧
          systemStep setup final (.own label) = some next
  /-- If it returns true, no row was pending at its last claim. -/
  drained : ∀ events (final : System φ),
    run (systemStep setup) (launch start) events = some final →
      final.worker.phase = .returned true →
      ∃ before after system,
        events = before ++ .own (.claim []) :: after ∧
          run (systemStep setup) (launch start) before = some system ∧
          system.worker.store.pendingKeys = [] ∧
          ∀ event ∈ after, event.isOwn = false
  /-- Alone, without a row that is claimed already, it passes every row to
  every sink once and leaves the store empty. -/
  complete :
    (∀ key row, start.rows.lookup key = some row → row.status = .pending) →
      ∀ final : System φ,
        Reachable (systemStep setup) (Alone setup) (launch start) final →
        ∀ drained, final.worker.phase = .returned drained →
          drained = true ∧ final.worker.store.rows = ∅ ∧
            ∀ position < setup.sinks.length,
              (final.passedTo position).Perm (staged start)

/-- What a step of the whole can do. -/
inductive SystemMoves (setup : Setup) (system : System φ) :
    Event φ → System φ → Prop
  | own
      {label : Label φ}
      {worker : State φ}
      (taken : step setup system.worker label = some worker) :
      SystemMoves setup system (.own label)
        { worker, passed := system.passed ++ system.worker.phase.passes }
  | other
      (statement : Statement)
      {store : BackfillStore}
      (permitted : concurrent statement = true)
      (taken : execute system.worker.store statement = some store) :
      SystemMoves setup system (.other statement)
        { system with worker := { system.worker with store } }

theorem systemStep_cases
    {setup : Setup}
    {system next : System φ}
    {event : Event φ}
    (taken : systemStep setup system event = some next) :
    SystemMoves setup system event next := by
  cases event with
  | own label =>
      obtain ⟨worker, moved, rfl⟩ := Option.map_eq_some_iff.mp taken
      exact .own moved
  | other statement =>
      simp only [systemStep] at taken
      split at taken <;> rename_i permitted
      · obtain ⟨store, executed, rfl⟩ := Option.map_eq_some_iff.mp taken
        exact .other statement permitted executed
      · cases taken

/-! ## What a statement costs -/

section Cost

variable {setup : Setup}

/-- Statements until the next claim, that one included. -/
def Phase.owed (setup : Setup) : Phase → Nat
  | .starting => 2
  | .claiming => 1
  | .rehydrating claimed => setup.sinks.length + claimed.length + 2
  | .dispatching claimed position =>
      (setup.sinks.length - position) + claimed.length + 1
  | .removing remaining => remaining.length + 1
  | .returned _ => 0

/-- Each pending row pays for the claim, the rehydration and the calls of a
batch, and for its removal. -/
def cost (setup : Setup) (state : State φ) : Nat :=
  (setup.sinks.length + 3) * state.store.pendingKeys.length +
    state.phase.owed setup

def Phase.running : Phase → Nat
  | .returned _ => 0
  | _ => 1

/-- The worker claims once for each pending row at most, and once to find
none. -/
def claimsLeft (state : State φ) : Nat :=
  state.store.pendingKeys.length + state.phase.running

/-- A worker that has returned takes no step. -/
theorem running_of_step
    {state next : State φ}
    {label : Label φ}
    (taken : step setup state label = some next) :
    0 < state.phase.owed setup ∧ state.phase.running = 1 := by
  cases phase : state.phase with
  | returned => cases label <;> simp [step, phase] at taken
  | _ => simp [Phase.owed, Phase.running]

theorem running_le_one (phase : Phase) : phase.running ≤ 1 := by
  cases phase <;> simp [Phase.running]

theorem owed_dispatch
    {claimed : List ClaimedRow}
    {position : Nat}
    (bounded : position ≤ setup.sinks.length) :
    (setup.dispatch claimed position).owed setup =
      (setup.sinks.length - position) + claimed.length + 1 := by
  unfold Setup.dispatch
  split
  · rfl
  · simp only [Phase.owed]
    omega

/-- The call of a sink is one statement less. -/
theorem owed_callSink_lt
    {state : State φ}
    {claimed : List ClaimedRow}
    {position : Nat}
    (bounded : position < setup.sinks.length)
    (sink : Target)
    (environment : Environment φ) :
    (callSink setup state claimed position sink environment).phase.owed setup <
      (Phase.dispatching claimed position).owed setup := by
  have fewer : (setup.dispatch claimed (position + 1)).owed setup <
      (Phase.dispatching claimed position).owed setup := by
    rw [owed_dispatch bounded]
    simp only [Phase.owed]
    omega
  unfold callSink
  split
  · exact fewer
  · simp only
    split
    · exact fewer
    · simp only [Phase.owed]
      omega

/-- The rows of a batch pay for its statements. -/
theorem owed_claimed_le (setup : Setup) (claimed : List ClaimedRow) :
    (if claimed.isEmpty then .returned true
      else Phase.rehydrating claimed).owed setup ≤
      (setup.sinks.length + 3) * claimed.length := by
  cases claimed with
  | nil => exact Nat.zero_le _
  | cons row rows =>
      have batch : setup.sinks.length + 3 ≤
          (setup.sinks.length + 3) * (rows.length + 1) :=
        Nat.le_mul_of_pos_right _ rows.length.succ_pos
      have rest : rows.length ≤ (setup.sinks.length + 3) * rows.length :=
        Nat.le_mul_of_pos_left _ (Nat.succ_pos _)
      simp only [List.isEmpty_cons, Bool.false_eq_true, if_false, Phase.owed,
        List.length_cons, Nat.mul_succ]
      omega

theorem running_claimed_le (claimed : List ClaimedRow) :
    (if claimed.isEmpty then .returned true
      else Phase.rehydrating claimed).running ≤ claimed.length := by
  cases claimed with
  | nil => exact Nat.zero_le _
  | cons row rows => simp [Phase.running]

theorem owed_removed (remaining : List ClaimedRow) :
    (if remaining.isEmpty then .claiming
      else Phase.removing remaining).owed setup = remaining.length + 1 := by
  cases remaining <;> rfl

theorem length_claimPending
    {store : BackfillStore}
    {limit : Nat}
    {selected : List (String × String)}
    (selects : store.Selects limit selected) :
    (store.claimPending selected).1.length = selected.length := by
  rw [← List.length_map ClaimedRow.key, map_key_claimPending selects.2.1]

theorem length_pendingKeys_markDone_le
    (store : BackfillStore)
    (sourceTable rowId : String) :
    (store.markDone sourceTable rowId).pendingKeys.length ≤
      store.pendingKeys.length :=
  List.Subperm.length_le (List.Nodup.subperm
    (BackfillStore.nodup_pendingKeys _)
    fun _ waits => (BackfillStore.mem_pendingKeys_markDone.mp waits).1)

/-- A statement of another party leaves no more rows pending. -/
theorem length_pendingKeys_of_concurrent
    {store next : BackfillStore}
    {statement : Statement}
    (permitted : concurrent statement = true)
    (taken : execute store statement = some next) :
    next.pendingKeys.length ≤ store.pendingKeys.length := by
  cases statement with
  | claimPending limit selected =>
      obtain ⟨selects, rfl⟩ := execute_claimPending taken
      have fewer := BackfillStore.length_pendingKeys_claimPending selects
      omega
  | updateRowData sourceTable rowId rowData =>
      cases taken
      exact List.Subperm.length_le (List.Nodup.subperm
        (BackfillStore.nodup_pendingKeys _)
        fun _ waits => BackfillStore.mem_pendingKeys_updateRowData.mp waits)
  | markDone sourceTable rowId =>
      cases taken
      exact length_pendingKeys_markDone_le store sourceTable rowId
  | _ => cases permitted

/-- Every statement of the worker is paid for. -/
theorem cost_step_lt
    {state next : State φ}
    {label : Label φ}
    (taken : step setup state label = some next) :
    cost setup next < cost setup state := by
  have owes := (running_of_step taken).1
  cases moves_of_step taken with
  | start phase => simp [cost, phase, Phase.owed]
  | claim selected phase selects =>
      have pays := Nat.mul_le_mul_left (setup.sinks.length + 3)
        (BackfillStore.length_pendingKeys_claimPending selects)
      have batch := owed_claimed_le setup (state.store.claimPending selected).1
      rw [length_claimPending selects] at batch
      rw [Nat.mul_add] at pays
      rw [phase] at owes
      simp only [cost, phase]
      omega
  | rehydrate claimed phase =>
      simp only [cost, phase, owed_dispatch (Nat.zero_le _)]
      simp only [Phase.owed]
      omega
  | call environment claimed position handle phase present =>
      have fewer : (callSink setup state claimed position handle.sink
          environment).phase.owed setup < _ :=
        owed_callSink_lt (List.getElem?_eq_some_iff.mp present).1 handle.sink
          environment
      simp only [cost, callSink_store, phase]
      omega
  | markDone row remaining phase =>
      have fewer := Nat.mul_le_mul_left (setup.sinks.length + 3)
        (length_pendingKeys_markDone_le state.store row.sourceTable row.rowId)
      simp only [cost, phase, owed_removed]
      simp only [Phase.owed, List.length_cons]
      omega
  | throw =>
      have settled : (Phase.returned false).owed setup = 0 := rfl
      simp only [cost, settled]
      omega

/-- Every claim is paid for. -/
theorem claimsLeft_step_le
    {state next : State φ}
    {label : Label φ}
    (taken : step setup state label = some next) :
    (if (Event.own label).isClaim then 1 else 0) + claimsLeft next ≤
      claimsLeft state := by
  have runs := (running_of_step taken).2
  have later := running_le_one next.phase
  unfold claimsLeft
  rw [runs]
  cases moves_of_step taken with
  | claim selected phase selects =>
      have fewer := BackfillStore.length_pendingKeys_claimPending selects
      have batch := running_claimed_le (state.store.claimPending selected).1
      rw [length_claimPending selects] at batch
      simp only [Event.isClaim, if_true]
      omega
  | call environment claimed position handle phase present =>
      simp only [Event.isClaim, Bool.false_eq_true, if_false, callSink_store]
      omega
  | markDone row remaining phase =>
      have fewer := length_pendingKeys_markDone_le state.store row.sourceTable
        row.rowId
      simp only [Event.isClaim, Bool.false_eq_true, if_false] at later ⊢
      omega
  | start | rehydrate | throw =>
      simp only [Event.isClaim, Bool.false_eq_true, if_false] at later ⊢
      omega

/-- Events of others cost the worker nothing. -/
theorem cost_systemStep_le
    {system next : System φ}
    {event : Event φ}
    (taken : systemStep setup system event = some next) :
    (if event.isOwn then 1 else 0) + cost setup next.worker ≤
      cost setup system.worker := by
  cases systemStep_cases taken with
  | own moved =>
      have paid := cost_step_lt moved
      simp only [Event.isOwn, if_true]
      omega
  | other statement permitted executed =>
      have fewer := Nat.mul_le_mul_left (setup.sinks.length + 3)
        (length_pendingKeys_of_concurrent permitted executed)
      simp only [Event.isOwn, Bool.false_eq_true, if_false, cost]
      omega

theorem claimsLeft_systemStep_le
    {system next : System φ}
    {event : Event φ}
    (taken : systemStep setup system event = some next) :
    (if event.isClaim then 1 else 0) + claimsLeft next.worker ≤
      claimsLeft system.worker := by
  cases systemStep_cases taken with
  | own moved => exact claimsLeft_step_le moved
  | other statement permitted executed =>
      have fewer := length_pendingKeys_of_concurrent permitted executed
      simp only [Event.isClaim, Bool.false_eq_true, if_false, claimsLeft]
      omega

theorem finite_of_run
    {start : BackfillStore}
    {events : List (Event φ)}
    {final : System φ}
    (executed : run (systemStep setup) (launch start) events = some final) :
    events.countP Event.isOwn ≤
        (setup.sinks.length + 3) * start.pendingKeys.length + 2 ∧
      events.countP Event.isClaim ≤ start.pendingKeys.length + 1 := by
  have statements := countP_le_of_run (systemStep setup) Event.isOwn
    (fun system => cost setup system.worker)
    (fun _ _ _ taken => cost_systemStep_le taken) executed
  have claims := countP_le_of_run (systemStep setup) Event.isClaim
    (fun system => claimsLeft system.worker)
    (fun _ _ _ taken => claimsLeft_systemStep_le taken) executed
  exact ⟨Nat.le_of_add_right_le statements, Nat.le_of_add_right_le claims⟩

end Cost

/-! ## The next statement -/

section Progress

variable {setup : Setup}

/-- The statement that is next can be executed. -/
def Phase.Ready (setup : Setup) : Phase → Prop
  | .rehydrating claimed => claimed ≠ []
  | .dispatching claimed position =>
      claimed ≠ [] ∧ position < setup.sinks.length
  | .removing remaining => remaining ≠ []
  | .starting | .claiming | .returned _ => True

theorem ready_dispatch
    {claimed : List ClaimedRow}
    (nonempty : claimed ≠ [])
    (position : Nat) :
    (setup.dispatch claimed position).Ready setup := by
  unfold Setup.dispatch
  split <;> rename_i more
  · exact ⟨nonempty, more⟩
  · exact nonempty

theorem ready_step
    {state next : State φ}
    {label : Label φ}
    (ready : state.phase.Ready setup)
    (taken : step setup state label = some next) :
    next.phase.Ready setup := by
  cases moves_of_step taken with
  | claim selected phase selects =>
      cases claimed : (state.store.claimPending selected).1 with
      | nil => simp [Phase.Ready]
      | cons row rows => simp [Phase.Ready]
  | rehydrate claimed phase =>
      rw [phase] at ready
      exact ready_dispatch ready 0
  | call environment claimed position handle phase present =>
      rw [phase] at ready
      unfold callSink
      split
      · exact ready_dispatch ready.1 _
      · simp only
        split
        · exact ready_dispatch ready.1 _
        · trivial
  | markDone row remaining phase =>
      cases remaining with
      | nil => simp [Phase.Ready]
      | cons later remaining => simp [Phase.Ready]
  | start | throw => trivial

/-- Answers that are no exception. -/
theorem not_throws_steady
    (state : State φ) :
    ¬Throws setup state (.call (steady fun _ => [])) := by
  rintro ⟨claimed, position, handle, applied, _, _, answered, threw⟩
  cases embedding : handle.sink.mappings? with
  | none =>
      cases sink : handle.sink <;> simp [sink, Target.mappings?] at embedding
      rw [sink] at answered
      cases answered
  | some mappings =>
      rw [Target.callBatch_eq embedding, Option.some.injEq] at answered
      rw [← answered, callBatch_steady_returned] at threw
      cases threw

/-- The database can always choose the rows of a claim. -/
theorem selects_take
    (store : BackfillStore)
    (limit : Nat) :
    store.Selects limit (store.pendingKeys.take limit) :=
  ⟨(BackfillStore.nodup_pendingKeys store).sublist (List.take_sublist _ _),
    fun _ member => List.mem_of_mem_take member, List.length_take⟩

/-- A worker that has not returned has a statement to execute. -/
theorem exists_step_of_ready
    {state : State φ}
    (ready : state.phase.Ready setup) :
    (∃ drained, state.phase = .returned drained) ∨
      ∃ label, ¬Throws setup state label ∧
        (step setup state label).isSome = true := by
  cases phase : state.phase with
  | returned drained => exact .inl ⟨drained, rfl⟩
  | starting => exact .inr ⟨.start, id, by simp [step, phase]⟩
  | claiming =>
      have selects := selects_take state.store setup.limit
      exact .inr ⟨.claim (state.store.pendingKeys.take setup.limit), id,
        by simp [step, phase, selects]⟩
  | rehydrating claimed => exact .inr ⟨.rehydrate, id, by simp [step, phase]⟩
  | dispatching claimed position =>
      rw [phase] at ready
      refine .inr ⟨.call _, not_throws_steady state, ?_⟩
      simp [step, phase, ready.2]
  | removing remaining =>
      rw [phase] at ready
      cases remaining with
      | nil => exact absurd rfl ready
      | cons row remaining =>
          exact .inr ⟨.markDone, id, by simp [step, phase]⟩

theorem progress_of_run
    {start : BackfillStore}
    {events : List (Event φ)}
    {final : System φ}
    (executed : run (systemStep setup) (launch start) events = some final) :
    (∃ drained, final.worker.phase = .returned drained) ∨
      ∃ label next, ¬Throws setup final.worker label ∧
        systemStep setup final (.own label) = some next := by
  have reachable : Reachable (systemStep setup) (fun _ _ => True)
      (launch start) final :=
    Reachable.start.run events (fun _ _ _ => trivial) executed
  have ready := reachable.invariant
    (fun system => system.worker.phase.Ready setup) trivial
    fun _ _ _ ready _ taken => by
      cases systemStep_cases taken with
      | own moved => exact ready_step ready moved
      | other => exact ready
  rcases exists_step_of_ready ready with returned | ⟨label, calm, enabled⟩
  · exact .inl returned
  · obtain ⟨worker, moved⟩ := Option.isSome_iff_exists.mp enabled
    exact .inr ⟨label, _, calm, by rw [systemStep, moved]; rfl⟩

end Progress

/-! ## The last claim -/

section LastClaim

variable {setup : Setup}

/-- The worker returns true when a claim gives it nothing. -/
theorem claim_of_returned
    (positive : 1 ≤ setup.limit)
    {state next : State φ}
    {label : Label φ}
    (taken : step setup state label = some next)
    (returned : next.phase = .returned true) :
    label = .claim [] ∧ state.store.pendingKeys = [] := by
  cases moves_of_step taken with
  | claim selected phase selects =>
      cases handed : (state.store.claimPending selected).1 with
      | nil =>
          have count := length_claimPending selects
          rw [handed] at count
          have empty : selected = [] := List.length_eq_zero_iff.mp count.symm
          have fewest := selects.2.2
          rw [empty, List.length_nil] at fewest
          exact ⟨by rw [empty], List.length_eq_zero_iff.mp (by omega)⟩
      | cons row rows => simp [handed] at returned
  | rehydrate claimed phase =>
      simp only [Setup.dispatch] at returned
      split at returned <;> cases returned
  | call environment claimed position handle phase present =>
      simp only [callSink, Setup.dispatch] at returned
      split at returned
      · split at returned <;> cases returned
      · simp only at returned
        split at returned
        · split at returned <;> cases returned
        · cases returned
  | markDone row remaining phase =>
      simp only at returned
      split at returned <;> cases returned
  | start | throw => cases returned

theorem drained_of_run
    (positive : 1 ≤ setup.limit)
    {start : BackfillStore}
    (events : List (Event φ))
    (final : System φ)
    (executed : run (systemStep setup) (launch start) events = some final)
    (returned : final.worker.phase = .returned true) :
    ∃ before after system,
      events = before ++ .own (.claim []) :: after ∧
        run (systemStep setup) (launch start) before = some system ∧
        system.worker.store.pendingKeys = [] ∧
        ∀ event ∈ after, event.isOwn = false := by
  induction events using List.reverseRecOn generalizing final with
  | nil =>
      cases executed
      cases returned
  | append_singleton events event inductionHypothesis =>
      rw [run_append] at executed
      obtain ⟨system, reached, last⟩ := Option.bind_eq_some_iff.mp executed
      have taken : systemStep setup system event = some final := by
        cases moved : systemStep setup system event with
        | none => simp [run, moved] at last
        | some next => simpa [run, moved] using last
      cases systemStep_cases taken with
      | own moved =>
          obtain ⟨rfl, unclaimed⟩ := claim_of_returned positive moved returned
          exact ⟨events, [], system, rfl, reached, unclaimed, by simp⟩
      | other statement permitted _ =>
          obtain ⟨before, after, claiming, rfl, earlier, unclaimed, others⟩ :=
            inductionHypothesis system reached returned
          refine ⟨before, after ++ [.other statement], claiming, by simp,
            earlier, unclaimed, ?_⟩
          intro event member
          rcases List.mem_append.mp member with member | member
          · exact others event member
          · rw [List.mem_singleton.mp member]
            rfl

end LastClaim

/-! ## A worker on its own -/

section Alone

variable {setup : Setup}
variable {start : BackfillStore}

/-- The pending rows, as a claim of all of them hands them over. -/
def waiting (store : BackfillStore) : List ClaimedRow :=
  (store.claimPending store.pendingKeys).1

theorem mem_waiting
    {store : BackfillStore}
    {row : ClaimedRow} :
    row ∈ waiting store ↔
      store.rows.lookup row.key = some ⟨row.rowData, .pending⟩ := by
  rw [waiting, BackfillStore.mem_claimPending, BackfillStore.mem_pendingKeys,
    BackfillStore.getRowData]
  constructor
  · rintro ⟨⟨rowData, found⟩, same⟩
    rw [found, Option.map_some, Option.some.injEq] at same
    rw [ClaimedRow.key, found, ← same]
  · intro found
    rw [ClaimedRow.key] at found
    exact ⟨⟨_, found⟩, by rw [found]; rfl⟩

theorem nodup_waiting (store : BackfillStore) : (waiting store).Nodup := by
  refine List.Nodup.of_map ClaimedRow.key ?_
  rw [waiting, map_key_claimPending fun _ member => member]
  exact BackfillStore.nodup_pendingKeys store

theorem nodup_claimPending
    {store : BackfillStore}
    {limit : Nat}
    {selected : List (String × String)}
    (selects : store.Selects limit selected) :
    ((store.claimPending selected).1.map ClaimedRow.key).Nodup := by
  rw [map_key_claimPending selects.2.1]
  exact selects.1

/-- A claim hands over the selected rows among those that wait. -/
theorem mem_claimPending_iff
    {store : BackfillStore}
    {limit : Nat}
    {selected : List (String × String)}
    (selects : store.Selects limit selected)
    {row : ClaimedRow} :
    row ∈ (store.claimPending selected).1 ↔
      row ∈ waiting store ∧ row.key ∈ selected := by
  rw [waiting, BackfillStore.mem_claimPending, BackfillStore.mem_claimPending]
  constructor
  · rintro ⟨member, found⟩
    exact ⟨⟨selects.2.1 _ member, found⟩, member⟩
  · rintro ⟨⟨_, found⟩, member⟩
    exact ⟨member, found⟩

theorem mem_waiting_claimPending
    {store : BackfillStore}
    {selected : List (String × String)}
    {row : ClaimedRow} :
    row ∈ waiting (store.claimPending selected).2 ↔
      row ∈ waiting store ∧ row.key ∉ selected := by
  rw [waiting, waiting, BackfillStore.mem_claimPending,
    BackfillStore.mem_claimPending, BackfillStore.getRowData_claimPending,
    BackfillStore.mem_pendingKeys_claimPending, and_right_comm]
  rfl

/-- The rows that wait are those handed over and those that still wait. -/
theorem waiting_claimPending
    {store : BackfillStore}
    {limit : Nat}
    {selected : List (String × String)}
    (selects : store.Selects limit selected) :
    ((store.claimPending selected).1 ++
        waiting (store.claimPending selected).2).Perm (waiting store) := by
  refine (List.perm_ext_iff_of_nodup ?_ (nodup_waiting store)).mpr ?_
  · refine List.Nodup.append (List.Nodup.of_map _ (nodup_claimPending selects))
      (nodup_waiting _) ?_
    intro row handed waits
    exact (mem_waiting_claimPending.mp waits).2
      ((mem_claimPending_iff selects).mp handed).2
  · intro row
    rw [List.mem_append, mem_claimPending_iff selects,
      mem_waiting_claimPending, ← and_or_left]
    exact and_iff_left (Decidable.em _)

/-- Removing a row that is claimed leaves those that wait. -/
theorem waiting_markDone
    {store : BackfillStore}
    {row : ClaimedRow}
    {data : RowData}
    (claimed : store.rows.lookup row.key = some ⟨data, .claimed⟩) :
    (waiting (store.markDone row.sourceTable row.rowId)).Perm
      (waiting store) := by
  refine (List.perm_ext_iff_of_nodup (nodup_waiting _)
    (nodup_waiting _)).mpr fun other => ?_
  rw [mem_waiting, mem_waiting, BackfillStore.lookup_markDone]
  split <;> rename_i same
  · have key : other.key = row.key := same
    rw [key, claimed]
    simp
  · rfl

theorem mem_staged
    {store : BackfillStore}
    {row : ClaimedRow} :
    row ∈ staged store ↔
      ∃ status, store.rows.lookup row.key = some ⟨row.rowData, status⟩ := by
  simp only [staged, List.mem_map]
  constructor
  · rintro ⟨⟨key, rowData, status⟩, member, rfl⟩
    exact ⟨status, AList.mem_lookup_iff.mpr member⟩
  · rintro ⟨status, found⟩
    exact ⟨⟨row.key, row.rowData, status⟩, AList.mem_lookup_iff.mp found, rfl⟩

theorem nodup_staged (store : BackfillStore) : (staged store).Nodup := by
  refine List.Nodup.of_map ClaimedRow.key ?_
  rw [staged, List.map_map]
  exact store.rows.nodupKeys

/-- The staged rows are all waiting at first. -/
theorem waiting_start
    (fresh : ∀ key row, start.rows.lookup key = some row →
      row.status = .pending) :
    (waiting start).Perm (staged start) := by
  refine (List.perm_ext_iff_of_nodup (nodup_waiting _)
    (nodup_staged _)).mpr fun row => ?_
  rw [mem_waiting, mem_staged]
  constructor
  · exact fun found => ⟨_, found⟩
  · rintro ⟨status, found⟩
    cases fresh _ _ found
    exact found

/-- The rows at hand. -/
def Phase.held : Phase → List ClaimedRow
  | .rehydrating claimed | .dispatching claimed _ | .removing claimed =>
      claimed
  | .starting | .claiming | .returned _ => []

/-- The rows at hand that the sink at a position has not been passed. -/
def Phase.unpassed (position : Nat) : Phase → List ClaimedRow
  | .rehydrating claimed => claimed
  | .dispatching claimed next => if position < next then [] else claimed
  | .starting | .claiming | .removing _ | .returned _ => []

/-- The rows at hand are those the store has as claimed. -/
structure Holds (store : BackfillStore) (held : List ClaimedRow) : Prop where
  distinct : (held.map ClaimedRow.key).Nodup
  iff : ∀ key data, store.rows.lookup key = some ⟨data, .claimed⟩ ↔
    ∃ row ∈ held, row.key = key ∧ row.rowData = data

theorem Holds.claimPending
    {store : BackfillStore}
    {limit : Nat}
    {selected : List (String × String)}
    (holds : Holds store [])
    (selects : store.Selects limit selected) :
    Holds (store.claimPending selected).2
      (store.claimPending selected).1 where
  distinct := nodup_claimPending selects
  iff := by
    intro key data
    rw [BackfillStore.lookup_claimPending]
    constructor
    · intro found
      obtain ⟨⟨rowData, status⟩, present, same⟩ :=
        Option.map_eq_some_iff.mp found
      split at same <;> rename_i member <;> cases same
      · obtain ⟨_, waits⟩ :=
          BackfillStore.mem_pendingKeys.mp (selects.2.1 key member)
        cases present.symm.trans waits
        exact ⟨⟨key.1, key.2, rowData⟩,
          (mem_claimPending_iff selects).mpr ⟨mem_waiting.mpr waits, member⟩,
          rfl, rfl⟩
      · -- No row was claimed before.
        obtain ⟨_, absent, _⟩ := (holds.iff key data).mp present
        cases absent
    · rintro ⟨row, handed, rfl, rfl⟩
      obtain ⟨waits, member⟩ := (mem_claimPending_iff selects).mp handed
      rw [mem_waiting.mp waits, Option.map_some, if_pos member]

theorem Holds.markDone
    {store : BackfillStore}
    {row : ClaimedRow}
    {remaining : List ClaimedRow}
    (holds : Holds store (row :: remaining)) :
    Holds (store.markDone row.sourceTable row.rowId) remaining where
  distinct := (List.nodup_cons.mp holds.distinct).2
  iff := by
    have alone := (List.nodup_cons.mp holds.distinct).1
    intro key data
    rw [BackfillStore.lookup_markDone]
    split <;> rename_i same
    · have removed : key = row.key := same
      simp only [reduceCtorEq, false_iff]
      rintro ⟨other, member, rfl, _⟩
      exact alone (removed ▸ List.mem_map_of_mem member)
    · have kept : row.key ≠ key := fun removed => same removed.symm
      rw [holds.iff]
      simp [kept]

/-- Where the rows of the store are. -/
structure Accounted (setup : Setup) (start : BackfillStore)
    (system : System φ) : Prop where
  running : system.worker.phase ≠ .returned false
  finished : system.worker.phase = .returned true →
    system.worker.store.pendingKeys = []
  holds : Holds system.worker.store system.worker.phase.held
  passed : ∀ position < setup.sinks.length,
    (system.passedTo position ++ (system.worker.phase.unpassed position ++
      waiting system.worker.store)).Perm (staged start)

theorem accounted_launch
    (fresh : ∀ key row, start.rows.lookup key = some row →
      row.status = .pending) :
    Accounted setup start (launch start : System φ) where
  running := by simp [launch]
  finished := by simp [launch]
  holds := ⟨List.nodup_nil, by
    intro key data
    constructor
    · intro found
      cases fresh _ _ found
    · rintro ⟨row, member, _⟩
      cases member⟩
  passed := fun _ _ => waiting_start fresh

/-- The call of a sink that does not throw. -/
theorem callSink_phase
    {state : State φ}
    {claimed : List ClaimedRow}
    {position : Nat}
    {handle : SinkHandle Target}
    {environment : Environment φ}
    (phase : state.phase = .dispatching claimed position)
    (present : setup.sinks[position]? = some handle)
    (calm : ¬Throws setup state (.call environment)) :
    (callSink setup state claimed position handle.sink environment).phase =
      setup.dispatch claimed (position + 1) := by
  unfold callSink
  split
  · rfl
  · rename_i applied answered
    have returned : applied.returned = true := by
      by_contra threw
      exact calm ⟨claimed, position, handle, applied, phase, present, answered,
        Bool.eq_false_iff.mpr threw⟩
    simp only [returned, if_true]

@[simp]
theorem held_dispatch
    (claimed : List ClaimedRow)
    (position : Nat) :
    (setup.dispatch claimed position).held = claimed := by
  unfold Setup.dispatch
  split <;> rfl

theorem dispatch_ne_returned
    (claimed : List ClaimedRow)
    (position : Nat)
    (drained : Bool) :
    setup.dispatch claimed position ≠ .returned drained := by
  unfold Setup.dispatch
  split <;> simp

theorem unpassed_dispatch
    {position : Nat}
    (known : position < setup.sinks.length)
    (claimed : List ClaimedRow)
    (next : Nat) :
    (setup.dispatch claimed next).unpassed position =
      if position < next then [] else claimed := by
  unfold Setup.dispatch
  split <;> rename_i more
  · rfl
  · rw [if_pos (by omega)]
    rfl

theorem held_claimed (claimed : List ClaimedRow) :
    (if claimed.isEmpty then .returned true
      else Phase.rehydrating claimed).held = claimed := by
  cases claimed <;> rfl

theorem unpassed_claimed (position : Nat) (claimed : List ClaimedRow) :
    (if claimed.isEmpty then .returned true
      else Phase.rehydrating claimed).unpassed position = claimed := by
  cases claimed <;> rfl

theorem held_removed (remaining : List ClaimedRow) :
    (if remaining.isEmpty then .claiming
      else Phase.removing remaining).held = remaining := by
  cases remaining <;> rfl

theorem unpassed_removed (position : Nat) (remaining : List ClaimedRow) :
    (if remaining.isEmpty then .claiming
      else Phase.removing remaining).unpassed position = [] := by
  cases remaining <;> rfl

/-- What a statement passes. -/
theorem passedTo_append
    (system : System φ)
    (worker : State φ)
    (position : Nat) :
    System.passedTo
        { worker, passed := system.passed ++ system.worker.phase.passes }
        position =
      system.passedTo position ++
        (system.worker.phase.passes.filter fun pass =>
          pass.1 = position).flatMap Prod.snd := by
  simp [System.passedTo]

theorem passedTo_of_passes_nil
    {system : System φ}
    (idle : system.worker.phase.passes = [])
    (worker : State φ)
    (position : Nat) :
    System.passedTo
        { worker, passed := system.passed ++ system.worker.phase.passes }
        position =
      system.passedTo position := by
  rw [passedTo_append, idle]
  exact List.append_nil _

theorem passedTo_dispatching
    {system : System φ}
    {claimed : List ClaimedRow}
    {next : Nat}
    (phase : system.worker.phase = .dispatching claimed next)
    (worker : State φ)
    (position : Nat) :
    System.passedTo
        { worker, passed := system.passed ++ system.worker.phase.passes }
        position =
      system.passedTo position ++ if next = position then claimed else [] := by
  rw [passedTo_append, phase]
  by_cases same : next = position <;> simp [Phase.passes, same]

/-- The loop over the sinks goes on. -/
theorem accounted_dispatch
    {system : System φ}
    {claimed : List ClaimedRow}
    {next : Nat}
    (phase : system.worker.phase = setup.dispatch claimed next)
    (holds : Holds system.worker.store claimed)
    (passed : ∀ position < setup.sinks.length,
      (system.passedTo position ++ ((if position < next then [] else claimed) ++
        waiting system.worker.store)).Perm (staged start)) :
    Accounted setup start system where
  running := by
    rw [phase]
    exact dispatch_ne_returned _ _ _
  finished := fun returned =>
    absurd (phase.symm.trans returned) (dispatch_ne_returned _ _ _)
  holds := by
    rw [phase, held_dispatch]
    exact holds
  passed := by
    intro position known
    rw [phase, unpassed_dispatch known]
    exact passed position known

theorem accounted_step
    {system next : System φ}
    {event : Event φ}
    (positive : 1 ≤ setup.limit)
    (accounted : Accounted setup start system)
    (alone : Alone setup system event)
    (taken : systemStep setup system event = some next) :
    Accounted setup start next := by
  obtain ⟨running, finished, holds, passed⟩ := accounted
  cases systemStep_cases taken with
  | other => cases alone
  | own moved =>
      cases moves_of_step moved with
      | start phase =>
          rw [phase] at holds passed
          refine ⟨by simp, by simp, holds, fun position known => ?_⟩
          rw [passedTo_of_passes_nil (by rw [phase]; rfl)]
          exact passed position known
      | claim selected phase selects =>
          rw [phase] at holds passed
          refine ⟨?_, ?_, ?_, fun position known => ?_⟩
          · simp only
            split <;> simp
          · intro returned
            obtain ⟨_, unclaimed⟩ := claim_of_returned positive moved returned
            have fewer :=
              BackfillStore.length_pendingKeys_claimPending selects
            rw [unclaimed, List.length_nil, Nat.le_zero, Nat.add_eq_zero_iff]
              at fewer
            exact List.length_eq_zero_iff.mp fewer.1
          · simp only [held_claimed]
            exact holds.claimPending selects
          · rw [passedTo_of_passes_nil (by rw [phase]; rfl)]
            simp only [unpassed_claimed]
            exact ((waiting_claimPending selects).append_left _).trans
              (passed position known)
      | rehydrate claimed phase =>
          rw [phase] at holds passed
          refine accounted_dispatch rfl holds fun position known => ?_
          rw [passedTo_of_passes_nil (by rw [phase]; rfl)]
          exact passed position known
      | call environment claimed position handle phase present =>
          rw [phase] at holds passed
          refine accounted_dispatch (callSink_phase phase present alone) ?_
            fun other known => ?_
          · simp only [callSink_store]
            exact holds
          · -- The sink that is called is passed the rows it had not been.
            have before := passed other known
            rw [passedTo_dispatching phase]
            simp only [callSink_store]
            simp only [Phase.unpassed] at before
            rcases lt_trichotomy other position with past | rfl | ahead
            · simpa [past, past.ne', Nat.lt_succ_of_lt past] using before
            · simpa using before
            · simpa [ahead.ne, ahead.not_gt, Nat.not_lt.mpr ahead] using before
      | markDone row remaining phase =>
          rw [phase] at holds passed
          have claimed := (holds.iff row.key row.rowData).mpr
            ⟨row, List.mem_cons_self, rfl, rfl⟩
          refine ⟨?_, ?_, ?_, fun position known => ?_⟩
          · simp only
            split <;> simp
          · simp only
            split <;> simp
          · simp only [held_removed]
            exact holds.markDone
          · rw [passedTo_of_passes_nil (by rw [phase]; rfl)]
            simp only [unpassed_removed]
            exact ((waiting_markDone claimed).append_left _).trans
              (passed position known)
      | throw => exact absurd trivial alone

/-- The rows are all passed when the worker returns. -/
theorem Accounted.complete
    {final : System φ}
    (accounted : Accounted setup start final)
    {drained : Bool}
    (returned : final.worker.phase = .returned drained) :
    drained = true ∧ final.worker.store.rows = ∅ ∧
      ∀ position < setup.sinks.length,
        (final.passedTo position).Perm (staged start) := by
  obtain ⟨running, finished, holds, passed⟩ := accounted
  cases drained with
  | false => exact absurd returned running
  | true =>
      have pending := finished returned
      have waiting : waiting final.worker.store = [] := by
        rw [waiting, pending]
        rfl
      rw [returned] at holds passed
      refine ⟨rfl, ?_, fun position known => ?_⟩
      · refine Table.eq_empty_of_lookup fun key => ?_
        cases found : final.worker.store.rows.lookup key with
        | none => rfl
        | some row =>
            obtain ⟨data, status⟩ := row
            cases status with
            | pending =>
                have waits := BackfillStore.mem_pendingKeys.mpr ⟨data, found⟩
                rw [pending] at waits
                cases waits
            | claimed =>
                obtain ⟨_, member, _⟩ := (holds.iff key data).mp found
                cases member
      · have all := passed position known
        rw [waiting] at all
        simpa [Phase.unpassed] using all

end Alone

/-- The drain ends in every interleaving with other workers and live events,
and on its own it passes every staged row to every sink once. -/
theorem drains
    (φ : Type)
    (setup : Setup)
    (positive : 1 ≤ setup.limit)
    (start : BackfillStore) :
    Drains φ setup start where
  finite := fun _ _ executed => finite_of_run executed
  progress := fun _ _ executed => progress_of_run executed
  drained := drained_of_run positive
  complete := by
    intro fresh final reachable drained returned
    have accounted := reachable.invariant (Accounted setup start)
      (accounted_launch fresh)
      fun _ _ _ accounted alone taken =>
        accounted_step positive accounted alone taken
    exact accounted.complete returned

/-! ## Two notes and two sinks -/

/-- The rows of a batch are claimed one by one. -/
def oneByOneSetup : Setup :=
  { limit := 1
    sinks := [⟨.pgEmbedding [notes], true⟩, ⟨.other "json-output", false⟩] }

def twoNotes : BackfillStore :=
  stagedNotes [noteRow "1" "one", noteRow "2" "two"]

def drainNote (id : String) : List (Event Nat) :=
  [.own (.claim [("notes", id)]), .own .rehydrate,
    .own (.call (steady fun _ => [])), .own (.call (steady fun _ => [])),
    .own .markDone]

def drainTwoNotes : List (Event Nat) :=
  .own .start :: drainNote "1" ++ drainNote "2" ++ [.own (.claim [])]

theorem drains_twoNotes :
    ∃ final : System Nat,
      Reachable (systemStep oneByOneSetup) (Alone oneByOneSetup)
          (launch twoNotes) final ∧
        final.worker.phase = .returned true ∧
        final.worker.store.rows = ∅ ∧
        ∀ position < 2, (final.passedTo position).Perm (staged twoNotes) := by
  have alone : ∀ (system : System Nat), ∀ event ∈ drainTwoNotes,
      Alone oneByOneSetup system event := by
    intro system
    simp only [drainTwoNotes, drainNote, List.cons_append, List.nil_append,
      List.forall_mem_cons, Alone, not_throws_steady]
    simp [Throws]
  obtain ⟨final, reachable, finished⟩ := exists_reachable_of_run
    (Alone oneByOneSetup) drainTwoNotes alone
    (show (run (systemStep oneByOneSetup) (launch twoNotes)
        drainTwoNotes).any
      (fun final => decide (final.worker.phase = .returned true)) = true by
        decide)
  have returned := of_decide_eq_true finished
  have pending : ∀ entry ∈ twoNotes.rows.entries,
      entry.2.status = .pending := by decide
  obtain ⟨_, empty, passed⟩ :=
    (drains Nat oneByOneSetup (by decide) twoNotes).complete
      (fun key row found => pending ⟨key, row⟩ (AList.mem_lookup_iff.mp found))
      final reachable true returned
  exact ⟨final, reachable, returned, empty, passed⟩

end Drain
end Backfill
end Walkrie
