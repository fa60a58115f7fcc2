import Walkrie.Backfill.Termination

/-!
# Best-effort sinks in the drain

The dispatcher logs an exception of a best-effort sink and goes on with the
next sink.  `BackfillWorker::run` calls the same sinks without their flags, and
ends at the first exception, whichever sink has thrown it.  A run is compared
here with the one in which the best-effort sinks return where they threw.
-/

namespace Walkrie
namespace Backfill
namespace Drain

open Sink
open Dispatcher (SinkHandle)

variable {φ : Type}

/-- How the outside behaves during a run: the rows a claim selects, what a call
of an embedding sink is answered, and whether a call of another sink throws.
No row is claimed twice, so the rows and the position tell the calls apart. -/
structure World (φ : Type) where
  select : BackfillStore → List (String × String)
  environment : List ClaimedRow → Nat → Environment φ
  fails : List ClaimedRow → Nat → Bool

namespace World

/-- The call of the sink at this position throws. -/
def throws (setup : Setup) (world : World φ) (claimed : List ClaimedRow)
    (position : Nat) : Bool :=
  match setup.sinks[position]? with
  | none => false
  | some handle =>
      match handle.sink.callBatch (world.environment claimed position)
          (claimed.map toChangeEvent) with
      | none => world.fails claimed position
      | some applied => !applied.returned

/-- The statement that is next, when only sinks throw. -/
def label (setup : Setup) (world : World φ) (state : State φ) : Label φ :=
  match state.phase with
  | .starting | .returned _ => .start
  | .claiming => .claim (world.select state.store)
  | .rehydrating _ => .rehydrate
  | .dispatching claimed position =>
      match setup.sinks[position]? with
      | some ⟨.other _, _⟩ =>
          if world.fails claimed position then .throw
          else .call (world.environment claimed position)
      | _ => .call (world.environment claimed position)
  | .removing _ => .markDone

/-- So many statements of `run`, or as many as there are. -/
def run (setup : Setup) (world : World φ) : Nat → System φ → System φ
  | 0, system => system
  | fuel + 1, system =>
      match systemStep setup system (.own (world.label setup system.worker)) with
      | none => system
      | some next => world.run setup fuel next

/-- `run`, with enough statements for what is pending. -/
def drain (setup : Setup) (world : World φ) (start : BackfillStore) :
    System φ :=
  world.run setup ((setup.sinks.length + 3) * start.pendingKeys.length + 2)
    (launch start)

/-- Claims take as many of the pending rows as allowed. -/
def Claims (setup : Setup) (world : World φ) : Prop :=
  ∀ store : BackfillStore, store.Selects setup.limit (world.select store)

/-- Required sinks do not throw. -/
def OnlyBestEffort (setup : Setup) (world : World φ) : Prop :=
  ∀ claimed position handle, setup.sinks[position]? = some handle →
    handle.required = true → world.throws setup claimed position = false

/-- The other world is the same, but best-effort sinks return where they threw
in this one. -/
structure Calms (setup : Setup) (world calm : World φ) : Prop where
  select : calm.select = world.select
  agrees : ∀ claimed position,
    world.throws setup claimed position = false →
      calm.environment claimed position = world.environment claimed position ∧
        calm.fails claimed position = world.fails claimed position
  quiet : ∀ claimed position handle, setup.sinks[position]? = some handle →
    handle.required = false → calm.throws setup claimed position = false

end World

/-- Two runs have left the same rows, passed the same rows to the required
sinks and returned the same. -/
structure SameOutcome (setup : Setup) (final other : System φ) : Prop where
  store : final.worker.store = other.worker.store
  delivered : ∀ position handle, setup.sinks[position]? = some handle →
    handle.required = true → final.passedTo position = other.passedTo position
  returned : final.worker.phase = other.worker.phase

/-! ## One statement -/

section Statement

variable {setup : Setup}
variable {world : World φ}
variable {state : State φ}

/-- The call of a sink ends the run or goes on to the next. -/
theorem step_label_dispatching
    (world : World φ)
    {claimed : List ClaimedRow}
    {position : Nat}
    (phase : state.phase = .dispatching claimed position)
    (bounded : position < setup.sinks.length) :
    ∃ next, step setup state (world.label setup state) = some next ∧
      next.phase = if world.throws setup claimed position then .returned false
        else setup.dispatch claimed (position + 1) := by
  obtain ⟨⟨sink, required⟩, present⟩ : ∃ handle,
      setup.sinks[position]? = some handle :=
    ⟨_, List.getElem?_eq_getElem bounded⟩
  cases sink with
  | other name =>
      cases fails : world.fails claimed position with
      | true =>
          exact ⟨{ state with phase := .returned false },
            by simp [World.label, phase, present, fails, step],
            by simp [World.throws, present, Target.callBatch, fails]⟩
      | false =>
          exact ⟨callSink setup state claimed position (.other name)
              (world.environment claimed position),
            by simp [World.label, phase, present, fails, step],
            by simp [World.throws, present, Target.callBatch, fails,
              callSink]⟩
  | pgEmbedding mappings | qdrant mappings | milvus mappings =>
      refine ⟨_, by simp only [World.label, phase, present, step,
        Option.map_some]; rfl, ?_⟩
      simp only [World.throws, present, callSink, Target.callBatch]
      split <;> simp_all

/-- There is a next statement until the worker returns. -/
theorem step_label
    (claims : world.Claims setup)
    (ready : state.phase.Ready setup)
    (running : ∀ drained, state.phase ≠ .returned drained) :
    (step setup state (world.label setup state)).isSome = true := by
  cases phase : state.phase with
  | starting => simp [World.label, phase, step]
  | claiming => simp [World.label, phase, step, claims state.store]
  | rehydrating claimed => simp [World.label, phase, step]
  | dispatching claimed position =>
      rw [phase] at ready
      obtain ⟨next, taken, _⟩ := step_label_dispatching world phase ready.2
      rw [taken]
      rfl
  | removing remaining =>
      rw [phase] at ready
      cases remaining with
      | nil => exact absurd rfl ready
      | cons row remaining => simp [World.label, phase, step]
  | returned drained => exact absurd phase (running drained)

/-- A statement other than the call of a sink does not fail. -/
theorem phase_of_step_label
    {next : State φ}
    (calls : ∀ claimed position, state.phase ≠ .dispatching claimed position)
    (taken : step setup state (world.label setup state) = some next) :
    next.phase ≠ .returned false := by
  cases phase : state.phase with
  | dispatching claimed position => exact absurd phase (calls _ _)
  | returned drained => simp [World.label, phase, step] at taken
  | starting =>
      simp only [World.label, phase, step] at taken
      cases taken
      simp
  | claiming =>
      simp only [World.label, phase, step] at taken
      split at taken <;> cases taken
      simp only
      split <;> simp
  | rehydrating claimed =>
      simp only [World.label, phase, step] at taken
      cases taken
      exact dispatch_ne_returned _ _ _
  | removing remaining =>
      simp only [World.label, phase, step] at taken
      split at taken <;> cases taken
      simp only
      split <;> simp

end Statement

/-! ## Whole runs -/

section Runs

variable {setup : Setup}
variable {world calm : World φ}
variable {system next : System φ}

/-- A run has failed exactly when a call it made has thrown. -/
structure Told (setup : Setup) (world : World φ) (system : System φ) :
    Prop where
  ready : system.worker.phase.Ready setup
  failed : system.worker.phase = .returned false ↔
    ∃ pass ∈ system.passed, world.throws setup pass.2 pass.1 = true

theorem told_launch
    (world : World φ)
    (start : BackfillStore) :
    Told setup world (launch start) where
  ready := trivial
  failed := by simp [launch]

theorem told_step
    (told : Told setup world system)
    (taken : systemStep setup system
      (.own (world.label setup system.worker)) = some next) :
    Told setup world next := by
  obtain ⟨worker, moved, rfl⟩ := Option.map_eq_some_iff.mp taken
  have running : system.worker.phase ≠ .returned false := by
    intro phase
    simp [World.label, phase, step] at moved
  have before : ¬∃ pass ∈ system.passed,
      world.throws setup pass.2 pass.1 = true :=
    mt told.failed.mpr running
  refine ⟨ready_step told.ready moved, ?_⟩
  cases phase : system.worker.phase with
  | dispatching claimed position =>
      have ready := told.ready
      rw [phase] at ready
      obtain ⟨worker', moved', outcome⟩ :=
        step_label_dispatching world phase ready.2
      cases moved.symm.trans moved'
      have passes : (∃ pass ∈ system.passed ++ [(position, claimed)],
          world.throws setup pass.2 pass.1 = true) ↔
            world.throws setup claimed position = true := by
        simp only [List.mem_append, or_and_right, exists_or, before, false_or,
          List.mem_singleton, exists_eq_left]
      simp only [Phase.passes, passes, outcome]
      split <;> rename_i threw
      · simp [threw]
      · simp [threw, dispatch_ne_returned]
  | starting | claiming | rehydrating | removing | returned =>
      have calls : ∀ claimed position,
          system.worker.phase ≠ .dispatching claimed position := by
        simp [phase]
      simp only [Phase.passes, List.append_nil]
      exact iff_of_false (phase_of_step_label calls moved) before

theorem told_run
    (fuel : Nat)
    (told : Told setup world system) :
    Told setup world (world.run setup fuel system) := by
  induction fuel generalizing system with
  | zero => exact told
  | succ fuel inductionHypothesis =>
      rw [World.run]
      split
      · exact told
      · rename_i next taken
        exact inductionHypothesis (told_step told taken)

/-- A statement adds to what has been passed. -/
theorem passed_step
    (taken : systemStep setup system
      (.own (world.label setup system.worker)) = some next) :
    next.passed = system.passed ++ system.worker.phase.passes := by
  obtain ⟨worker, _, rfl⟩ := Option.map_eq_some_iff.mp taken
  rfl

/-- The worker returns when every statement has been executed. -/
theorem returned_run
    (claims : world.Claims setup)
    (fuel : Nat)
    (enough : cost setup system.worker ≤ fuel)
    (told : Told setup world system) :
    ∃ drained,
      (world.run setup fuel system).worker.phase = .returned drained := by
  induction fuel generalizing system with
  | zero =>
      by_contra running
      obtain ⟨worker, moved⟩ := Option.isSome_iff_exists.mp
        (step_label claims told.ready (not_exists.mp running))
      have less := cost_step_lt moved
      omega
  | succ fuel inductionHypothesis =>
      rw [World.run]
      cases taken : systemStep setup system
          (.own (world.label setup system.worker)) with
      | none =>
          by_contra running
          have next := step_label claims told.ready (not_exists.mp running)
          rw [systemStep, Option.map_eq_none_iff] at taken
          rw [taken] at next
          cases next
      | some next =>
          obtain ⟨worker, moved, rfl⟩ := Option.map_eq_some_iff.mp taken
          have less := cost_step_lt moved
          exact inductionHypothesis (Nat.le_of_lt_succ (less.trans_le enough))
            (told_step told taken)

theorem passed_run
    (fuel : Nat)
    (system : System φ) :
    system.passed <+: (world.run setup fuel system).passed := by
  induction fuel generalizing system with
  | zero => exact List.prefix_rfl
  | succ fuel inductionHypothesis =>
      rw [World.run]
      split
      · exact List.prefix_rfl
      · rename_i next taken
        refine List.IsPrefix.trans ?_ (inductionHypothesis next)
        rw [passed_step taken]
        exact List.prefix_append _ _

/-- The two worlds go on with the same statement unless a sink throws in the
first. -/
theorem label_eq
    (calms : World.Calms setup world calm)
    (state : State φ)
    (quiet : ∀ claimed position,
      state.phase = .dispatching claimed position →
        world.throws setup claimed position = false) :
    calm.label setup state = world.label setup state := by
  unfold World.label
  rw [calms.select]
  cases phase : state.phase with
  | dispatching claimed position =>
      obtain ⟨environment, fails⟩ :=
        calms.agrees claimed position (quiet claimed position phase)
      simp only [environment, fails]
  | starting | claiming | rehydrating | removing | returned => rfl

theorem run_eq
    (calms : World.Calms setup world calm)
    (fuel : Nat)
    (told : Told setup world system)
    (quiet : ∀ pass ∈ (world.run setup fuel system).passed,
      world.throws setup pass.2 pass.1 = false) :
    calm.run setup fuel system = world.run setup fuel system := by
  induction fuel generalizing system with
  | zero => rfl
  | succ fuel inductionHypothesis =>
      have label : calm.label setup system.worker =
          world.label setup system.worker := by
        refine label_eq calms system.worker fun claimed position phase => ?_
        have ready := told.ready
        rw [phase] at ready
        obtain ⟨worker, moved, _⟩ :=
          step_label_dispatching world phase ready.2
        refine quiet (position, claimed) ?_
        rw [World.run, systemStep, moved]
        refine (passed_run fuel _).subset ?_
        simp [phase, Phase.passes]
      rw [World.run, World.run, label]
      rw [World.run] at quiet
      split <;> rename_i taken
      · rfl
      · rw [taken] at quiet
        exact inductionHypothesis (told_step told taken) quiet

end Runs

/-- Where required sinks do not throw, the world without the exceptions of the
others has none. -/
theorem throws_calm
    {setup : Setup}
    {world calm : World φ}
    (only : world.OnlyBestEffort setup)
    (calms : World.Calms setup world calm)
    (claimed : List ClaimedRow)
    (position : Nat) :
    calm.throws setup claimed position = false := by
  cases present : setup.sinks[position]? with
  | none => simp [World.throws, present]
  | some handle =>
      cases required : handle.required with
      | false => exact calms.quiet claimed position handle present required
      | true =>
          have quiet := only claimed position handle present required
          obtain ⟨environment, fails⟩ := calms.agrees claimed position quiet
          rw [World.throws] at quiet ⊢
          rw [environment, fails]
          exact quiet

/-- The worker returns, and without exceptions it returns true.  The drain is
what it would be without the exceptions of best-effort sinks exactly when none
of the sinks it calls throws one. -/
theorem bestEffort_ignored_iff
    (setup : Setup)
    (start : BackfillStore)
    (world calm : World φ)
    (claims : world.Claims setup)
    (only : world.OnlyBestEffort setup)
    (calms : World.Calms setup world calm) :
    (∃ drained,
      (world.drain setup start).worker.phase = .returned drained) ∧
      (calm.drain setup start).worker.phase = .returned true ∧
      (SameOutcome setup (world.drain setup start) (calm.drain setup start) ↔
        ∀ pass ∈ (world.drain setup start).passed,
          world.throws setup pass.2 pass.1 = false) := by
  have claims' : calm.Claims setup := by
    rw [World.Claims, calms.select]
    exact claims
  have failed : (world.drain setup start).worker.phase = .returned false ↔ _ :=
    (told_run _ (told_launch world start)).failed
  have unfailed : (calm.drain setup start).worker.phase ≠ .returned false := by
    intro phase
    obtain ⟨pass, _, threw⟩ :=
      (told_run _ (told_launch calm start)).failed.mp phase
    rw [throws_calm only calms] at threw
    cases threw
  obtain ⟨drained', phase'⟩ : ∃ drained,
      (calm.drain setup start).worker.phase = .returned drained :=
    returned_run claims' _ le_rfl (told_launch calm start)
  have finished' : drained' = true := by
    by_contra no
    rw [Bool.not_eq_true] at no
    exact unfailed (no ▸ phase')
  refine ⟨returned_run claims _ le_rfl (told_launch world start),
    finished' ▸ phase', ?_⟩
  constructor
  · intro same pass member
    by_contra threw
    rw [Bool.not_eq_false] at threw
    exact unfailed (same.returned.symm.trans
      (failed.mpr ⟨pass, member, threw⟩))
  · intro quiet
    have same : calm.drain setup start = world.drain setup start :=
      run_eq calms _ (told_launch world start) quiet
    rw [same]
    exact ⟨rfl, fun _ _ _ _ => rfl, rfl⟩

/-! ## The JSON output before a required sink -/

/-- `JsonSink` is best-effort unless the configuration says otherwise. -/
def jsonSetup : Setup :=
  { limit := 200
    sinks := [⟨.other "json-output", false⟩, ⟨.pgEmbedding [notes], true⟩] }

/-- The JSON output throws for some batches, and everything else goes well. -/
def jsonWorld (throwsFor : List ClaimedRow → Bool) : World Nat :=
  { select := fun store => store.pendingKeys.take 200
    environment := fun _ _ => steady fun _ => [1]
    fails := fun claimed position =>
      decide (position = 0) && throwsFor claimed }

section JsonOutput

variable (throwsFor : List ClaimedRow → Bool)

theorem claims_jsonWorld :
    (jsonWorld throwsFor).Claims jsonSetup :=
  fun store => selects_take store 200

theorem throws_jsonWorld
    (claimed : List ClaimedRow)
    (position : Nat) :
    (jsonWorld throwsFor).throws jsonSetup claimed position =
      (decide (position = 0) && throwsFor claimed) := by
  match position with
  | 0 => rfl
  | 1 =>
      have returned : (callBatch (steady fun _ => [1]) [notes]
          (claimed.map toChangeEvent)).returned = true :=
        callBatch_steady_returned _ _
      exact congrArg (!·) returned
  | _ + 2 => rfl

theorem onlyBestEffort_jsonWorld :
    (jsonWorld throwsFor).OnlyBestEffort jsonSetup := by
  intro claimed position handle present required
  rw [throws_jsonWorld]
  cases position with
  | zero =>
      cases present
      cases required
  | succ position => rfl

theorem calms_jsonWorld :
    World.Calms jsonSetup (jsonWorld throwsFor)
      (jsonWorld fun _ => false) where
  select := rfl
  agrees := by
    intro claimed position quiet
    rw [throws_jsonWorld] at quiet
    exact ⟨rfl, (Bool.and_false _).trans quiet.symm⟩
  quiet := by
    intro claimed position handle _ _
    rw [throws_jsonWorld, Bool.and_false]

end JsonOutput

/-- An output that would throw for a batch without rows never does. -/
theorem bestEffort_ignored_twoNotes :
    SameOutcome jsonSetup
      ((jsonWorld List.isEmpty).drain jsonSetup twoNotes)
      ((jsonWorld fun _ => false).drain jsonSetup twoNotes) :=
  (bestEffort_ignored_iff jsonSetup twoNotes (jsonWorld List.isEmpty)
    (jsonWorld fun _ => false) (claims_jsonWorld _)
    (onlyBestEffort_jsonWorld _) (calms_jsonWorld _)).2.2.mpr
      (by decide +kernel)

/-- An output that throws keeps the notes from the required sink and makes the
worker fail, where the dispatcher would go on. -/
theorem bestEffort_not_ignored_twoNotes :
    (jsonWorld fun _ => true).OnlyBestEffort jsonSetup ∧
      ((jsonWorld fun _ => true).drain jsonSetup
          twoNotes).worker.phase = .returned false ∧
      ((jsonWorld fun _ => true).drain jsonSetup
          twoNotes).passedTo 1 = [] ∧
      ((jsonWorld fun _ => false).drain jsonSetup
          twoNotes).worker.phase = .returned true ∧
      ((jsonWorld fun _ => false).drain jsonSetup
          twoNotes).passedTo 1 ≠ [] ∧
      ¬SameOutcome jsonSetup
        ((jsonWorld fun _ => true).drain jsonSetup twoNotes)
        ((jsonWorld fun _ => false).drain jsonSetup twoNotes) ∧
      ∀ settings backoff elapsed,
        Dispatcher.dispatchWithRetry settings false backoff
          (.threw elapsed : Dispatcher.Attempt Unit) = .completed := by
  have failed : ((jsonWorld fun _ => true).drain jsonSetup
      twoNotes).worker.phase = .returned false := rfl
  have drained : ((jsonWorld fun _ => false).drain jsonSetup
      twoNotes).worker.phase = .returned true := rfl
  refine ⟨onlyBestEffort_jsonWorld _, failed, rfl, drained, ?_, ?_,
    fun _ _ _ => rfl⟩
  · intro equal
    cases equal
  · intro same
    have returned := same.returned
    rw [failed, drained] at returned
    cases returned

end Drain
end Backfill
end Walkrie
