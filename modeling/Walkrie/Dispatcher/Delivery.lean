import Walkrie.Dispatcher.Trace

/-!
# Delivery order and the stop after a stalled required sink

The invariant of the dispatcher thread splits the dequeued jobs into those
every sink has finished with and the batch that is still open.  It is kept by
every step except one: when the main loop gives up on a required sink and no
fatal callback is installed, the flag that would suppress the shutdown drain
is never set, and the drain goes on behind the lost batch.
-/

namespace Walkrie
namespace Dispatcher

variable {σ ρ : Type}
variable {settings : Settings} {sinks : List (SinkHandle σ)}
variable {state : State σ ρ} {batch : Batch σ}

/-- Observations that move no job: none is dequeued or finished. -/
structure Silent (outputs : List (Output σ ρ)) : Prop where
  dequeued : dequeued outputs = []
  completed : ∀ position, completedJobs position outputs = []

theorem silent_posted (job : EventJob σ) :
    Silent [(.posted job : Output σ ρ)] :=
  ⟨rfl, fun _ => rfl⟩

theorem silent_dispatched : Silent [(.dispatched batch : Output σ ρ)] :=
  ⟨rfl, fun _ => rfl⟩

theorem silent_called
    (position : Nat)
    (batch : Batch σ)
    (attempt : Attempt ρ) :
    Silent [(.called position batch attempt : Output σ ρ)] :=
  ⟨rfl, fun _ => rfl⟩

theorem silent_confirmed (source : SourceId) (lsn : Nat) :
    Silent [(.confirmed source lsn : Output σ ρ)] :=
  ⟨rfl, fun _ => rfl⟩

/-! ## Jobs every required sink has accepted -/

/-- The job at a position of the posting order has been in a dispatched batch
for which `call_batch` of every required sink returned normally. -/
def Delivered
    (sinks : List (SinkHandle σ))
    (trace : List (Output σ ρ))
    (position : Nat) : Prop :=
  ∃ batch : Batch σ,
    Output.dispatched batch ∈ trace ∧
    batch.first ≤ position ∧
    position < batch.first + batch.jobs.length ∧
    batch.jobs[position - batch.first]? = (posted trace)[position]? ∧
    ∀ index handle,
      sinks[index]? = some handle → handle.required = true →
        ∃ report, Output.called index batch (.returned report) ∈ trace

/-- Delivery is never undone by what happens later. -/
theorem Delivered.append
    {trace : List (Output σ ρ)}
    {position : Nat}
    (delivered : Delivered sinks trace position)
    (later : List (Output σ ρ)) :
    Delivered sinks (trace ++ later) position := by
  obtain ⟨batch, sent, lower, upper, same, accepted⟩ := delivered
  have inBatch : position - batch.first < batch.jobs.length := by omega
  have inPosted : position < (posted trace).length := by
    rw [List.getElem?_eq_getElem inBatch] at same
    exact (List.getElem?_eq_some_iff.mp same.symm).1
  refine ⟨batch, List.mem_append_left later sent, lower, upper, ?_, ?_⟩
  · rw [posted_append, List.getElem?_append_left inPosted, same]
  · intro index handle present required
    obtain ⟨report, member⟩ := accepted index handle present required
    exact ⟨report, List.mem_append_left later member⟩

/-! ## The invariant -/

/-- Every dequeued job has been finished by every sink. -/
structure Settled
    (sinks : List (SinkHandle σ))
    (trace : List (Output σ ρ)) : Prop where
  completed : ∀ index < sinks.length,
    completedJobs index trace = dequeued trace
  delivered : ∀ index < (dequeued trace).length,
    Delivered sinks trace index

/-- A batch is the only dequeued work left, and exactly the sinks before
`position` have finished it. -/
structure OpenBatch
    (sinks : List (SinkHandle σ))
    (trace : List (Output σ ρ))
    (batch : Batch σ)
    (position : Nat) : Prop where
  first_le : batch.first ≤ (dequeued trace).length
  jobs_eq : (dequeued trace).drop batch.first = batch.jobs
  delivered : ∀ index < batch.first, Delivered sinks trace index
  done : ∀ index < sinks.length, index < position →
    completedJobs index trace = dequeued trace
  todo : ∀ index < sinks.length, position ≤ index →
    completedJobs index trace = (dequeued trace).take batch.first
  returned : ∀ index < position, ∀ handle,
    sinks[index]? = some handle → handle.required = true →
      ∃ report, Output.called index batch (.returned report) ∈ trace

/-- No required sink has been given up on. -/
structure Unstalled (state : State σ ρ) : Prop where
  flag : state.fatalTriggered = false
  trace : ∀ position batch, Output.gaveUp position batch ∉ state.trace

/-- Batch sizes the two loops can produce; a batch holds at least one job even
when the configured maximum is zero. -/
def SizeAllowed (settings : Settings) (batch : Batch σ) : Prop :=
  1 ≤ batch.jobs.length ∧
    batch.jobs.length ≤ max 1 settings.maxBatchSize

/-- The drain runs only after the destructor cleared `running_`, and its last
flush only once the queue is empty. -/
def CallerSound (caller : Caller) (state : State σ ρ) : Prop :=
  (caller ≠ .processJobs → state.running = false) ∧
    (caller = .drainEnd → state.queue = [])

/-- What holds at each program position. -/
def PhaseSound
    (settings : Settings)
    (sinks : List (SinkHandle σ))
    (state : State σ ρ) : Prop :=
  match state.phase with
  | .loopHead | .waiting => Unstalled state ∧ Settled sinks state.trace
  | .collecting batch _ =>
      Unstalled state ∧ batch.sinks = sinks ∧ SizeAllowed settings batch ∧
        OpenBatch sinks state.trace batch 0
  | .dispatching caller batch position _ =>
      Unstalled state ∧ batch.sinks = sinks ∧ CallerSound caller state ∧
        Output.dispatched batch ∈ state.trace ∧
        OpenBatch sinks state.trace batch position
  | .notifying caller batch pending =>
      Unstalled state ∧ batch.sinks = sinks ∧ CallerSound caller state ∧
        Output.dispatched batch ∈ state.trace ∧
        (∀ entry ∈ pending, entry ∈ batch.maxLsn) ∧
        OpenBatch sinks state.trace batch sinks.length
  | .draining batch =>
      Unstalled state ∧ (batch.sinks = [] ∨ batch.sinks = sinks) ∧
        (batch.jobs ≠ [] → batch.sinks = sinks) ∧
        state.running = false ∧
        batch.jobs.length < max 1 settings.maxBatchSize ∧
        OpenBatch sinks state.trace batch 0
  | .exited =>
      (∀ index < sinks.length,
        completedJobs index state.trace <+: dequeued state.trace) ∧
      ((∀ position batch, Output.gaveUp position batch ∉ state.trace) →
        state.running = false ∧ state.queue = [] ∧
          Settled sinks state.trace)

/-- What holds at every program position. -/
structure Core
    (settings : Settings)
    (sinks : List (SinkHandle σ))
    (state : State σ ρ) : Prop where
  queue : posted state.trace = dequeued state.trace ++ state.queue
  shared : ∀ job ∈ state.queue, job.sinks = sinks
  sizes : ∀ batch, Output.dispatched batch ∈ state.trace →
    SizeAllowed settings batch

/-- The dispatcher invariant. -/
structure Sound
    (settings : Settings)
    (sinks : List (SinkHandle σ))
    (state : State σ ρ) : Prop where
  core : Core settings sinks state
  phase : PhaseSound settings sinks state

/-! ## How the parts of the invariant follow the trace -/

theorem OpenBatch.dequeued_eq
    {trace : List (Output σ ρ)}
    {position : Nat}
    (openBatch : OpenBatch sinks trace batch position) :
    (dequeued trace).take batch.first ++ batch.jobs = dequeued trace := by
  rw [← openBatch.jobs_eq, List.take_append_drop]

theorem OpenBatch.length_eq
    {trace : List (Output σ ρ)}
    {position : Nat}
    (openBatch : OpenBatch sinks trace batch position) :
    batch.first + batch.jobs.length = (dequeued trace).length := by
  have bound := openBatch.first_le
  rw [← openBatch.jobs_eq, List.length_drop]
  omega

/-- Silent observations keep an open batch as it is. -/
theorem OpenBatch.silent
    {trace outputs : List (Output σ ρ)}
    {position : Nat}
    (openBatch : OpenBatch sinks trace batch position)
    (silent : Silent outputs) :
    OpenBatch sinks (trace ++ outputs) batch position where
  first_le := by
    simpa [silent.dequeued] using openBatch.first_le
  jobs_eq := by
    simpa [silent.dequeued] using openBatch.jobs_eq
  delivered := fun index bound =>
    (openBatch.delivered index bound).append outputs
  done := fun index bound before => by
    simpa [silent.dequeued, silent.completed] using
      openBatch.done index bound before
  todo := fun index bound after => by
    simpa [silent.dequeued, silent.completed] using
      openBatch.todo index bound after
  returned := fun index bound handle present required => by
    obtain ⟨report, member⟩ :=
      openBatch.returned index bound handle present required
    exact ⟨report, List.mem_append_left outputs member⟩

/-- Silent observations keep a settled trace settled. -/
theorem Settled.silent
    {trace outputs : List (Output σ ρ)}
    (settled : Settled sinks trace)
    (silent : Silent outputs) :
    Settled sinks (trace ++ outputs) where
  completed := fun index bound => by
    simpa [silent.dequeued, silent.completed] using
      settled.completed index bound
  delivered := fun index bound => by
    have before : index < (dequeued trace).length := by
      simpa [silent.dequeued] using bound
    exact (settled.delivered index before).append outputs

/-- A settled trace opens an empty batch. -/
theorem Settled.openBatch
    (settled : Settled sinks state.trace)
    (handles : List (SinkHandle σ)) :
    OpenBatch sinks state.trace (state.newBatch handles) 0 where
  first_le := Nat.le_refl _
  jobs_eq := by simp [State.newBatch]
  delivered := settled.delivered
  done := fun _ _ impossible => absurd impossible (Nat.not_lt_zero _)
  todo := fun index bound _ => by
    simp [State.newBatch, settled.completed index bound]
  returned := fun _ impossible => absurd impossible (Nat.not_lt_zero _)

/-- Dequeuing one more job into a batch no sink has seen yet. -/
theorem OpenBatch.push
    {trace : List (Output σ ρ)}
    (openBatch : OpenBatch sinks trace batch 0)
    (job : EventJob σ)
    (handles : List (SinkHandle σ)) :
    OpenBatch sinks (trace ++ [.dequeued job])
      { batch.push job with sinks := handles } 0 where
  first_le := by
    have bound := openBatch.first_le
    simp only [Batch.push, dequeued_append, List.length_append]
    omega
  jobs_eq := by
    simp only [Batch.push, dequeued_append]
    rw [List.drop_append_of_le_length openBatch.first_le,
      openBatch.jobs_eq]
    rfl
  delivered := fun index bound =>
    (openBatch.delivered index bound).append [.dequeued job]
  done := fun _ _ impossible => absurd impossible (Nat.not_lt_zero _)
  todo := fun index bound after => by
    have unchanged := openBatch.todo index bound after
    simp only [Batch.push, completedJobs_append, dequeued_append]
    rw [List.take_append_of_le_length openBatch.first_le, unchanged]
    simp
  returned := fun _ impossible => absurd impossible (Nat.not_lt_zero _)

/-- The sink at `position` finishes the batch; a required one has returned. -/
theorem OpenBatch.complete
    {trace : List (Output σ ρ)}
    {position : Nat}
    (openBatch : OpenBatch sinks trace batch position)
    (accepted : ∀ handle,
      sinks[position]? = some handle → handle.required = true →
        ∃ report, Output.called position batch (.returned report) ∈ trace) :
    OpenBatch sinks (trace ++ [.completed position batch]) batch
      (position + 1) where
  first_le := by simpa using openBatch.first_le
  jobs_eq := by simpa using openBatch.jobs_eq
  delivered := fun index bound =>
    (openBatch.delivered index bound).append [.completed position batch]
  done := fun index bound before => by
    by_cases current : index = position
    · subst current
      have unfinished := openBatch.todo index bound (Nat.le_refl _)
      rw [completedJobs_append, dequeued_append, unfinished]
      simpa using openBatch.dequeued_eq
    · have finished := openBatch.done index bound (by omega)
      rw [completedJobs_append, dequeued_append, finished]
      simp [Ne.symm current]
  todo := fun index bound after => by
    have different : position ≠ index := by omega
    have unfinished := openBatch.todo index bound (by omega)
    rw [completedJobs_append, dequeued_append, unfinished]
    simp [different]
  returned := fun index bound handle present required => by
    by_cases current : index = position
    · subst current
      obtain ⟨report, member⟩ := accepted handle present required
      exact ⟨report, List.mem_append_left _ member⟩
    · obtain ⟨report, member⟩ :=
        openBatch.returned index (by omega) handle present required
      exact ⟨report, List.mem_append_left _ member⟩

/-- A batch every sink has finished leaves nothing open. -/
theorem OpenBatch.settled
    (openBatch : OpenBatch sinks state.trace batch sinks.length)
    (sent : Output.dispatched batch ∈ state.trace)
    (queue : posted state.trace = dequeued state.trace ++ state.queue) :
    Settled sinks state.trace where
  completed := fun index bound => openBatch.done index bound bound
  delivered := by
    intro index bound
    by_cases earlier : index < batch.first
    · exact openBatch.delivered index earlier
    · have total := openBatch.length_eq
      refine ⟨batch, sent, by omega, by omega, ?_, ?_⟩
      · rw [queue, List.getElem?_append_left bound, ← openBatch.jobs_eq,
          List.getElem?_drop]
        congr 1
        omega
      · intro other handle present required
        exact openBatch.returned other
          (List.getElem?_eq_some_iff.mp present).1 handle present required

/-! ## The statements keep the invariant -/

/-- Changing only the program position keeps what holds everywhere. -/
theorem Core.phase
    (core : Core settings sinks state)
    (phase : Phase σ) :
    Core settings sinks { state with phase := phase } :=
  ⟨core.queue, core.shared, core.sizes⟩

/-- Observations that neither post nor dequeue keep what holds everywhere. -/
theorem Core.emit
    (core : Core settings sinks state)
    (outputs : List (Output σ ρ))
    (unposted : posted outputs = [])
    (undequeued : dequeued outputs = [])
    (sizes : ∀ batch, Output.dispatched batch ∈ outputs →
      SizeAllowed settings batch) :
    Core settings sinks (state.emit outputs) where
  queue := by simpa [unposted, undequeued] using core.queue
  shared := core.shared
  sizes := by
    intro batch member
    rcases List.mem_append.mp member with earlier | new
    · exact core.sizes batch earlier
    · exact sizes batch new

theorem Unstalled.emit
    (unstalled : Unstalled state)
    (outputs : List (Output σ ρ))
    (absent : ∀ position batch, Output.gaveUp position batch ∉ outputs) :
    Unstalled (state.emit outputs) where
  flag := unstalled.flag
  trace := by
    intro position batch member
    rcases List.mem_append.mp member with earlier | new
    · exact unstalled.trace position batch earlier
    · exact absent position batch new

/-- Leaving the main loop without a stall starts the drain. -/
theorem leaveLoop_sound
    (core : Core settings sinks state)
    (unstalled : Unstalled state)
    (settled : Settled sinks state.trace)
    (stopped : state.running = false) :
    Sound settings sinks state.leaveLoop where
  core := core.phase _
  phase := by
    have draining : state.leaveLoop.phase =
        .draining (state.newBatch []) := by
      simp [State.leaveLoop, unstalled.flag]
    rw [PhaseSound, draining]
    exact ⟨⟨unstalled.flag, unstalled.trace⟩, .inl rfl,
      fun nonempty => absurd rfl nonempty, stopped,
      Nat.le_max_left _ _,
      settled.openBatch []⟩

/-- Continuing after a batch that every sink has finished. -/
theorem resume_sound
    {caller : Caller}
    (core : Core settings sinks state)
    (unstalled : Unstalled state)
    (settled : Settled sinks state.trace)
    (callerSound : CallerSound caller state)
    (shared : batch.sinks = sinks) :
    Sound settings sinks (state.resume caller batch) := by
  cases caller with
  | processJobs =>
      exact ⟨core.phase _, ⟨unstalled.flag, unstalled.trace⟩, settled⟩
  | drainLoop =>
      refine ⟨core.phase _, ⟨unstalled.flag, unstalled.trace⟩, ?_⟩
      exact ⟨.inr shared, fun _ => shared, callerSound.1 (by simp),
        Nat.le_max_left _ _, settled.openBatch batch.sinks⟩
  | drainEnd =>
      refine ⟨core.phase _, ?_, fun _ => ?_⟩
      · intro index bound
        exact (settled.completed index bound) ▸ List.prefix_rfl
      · exact ⟨callerSound.1 (by simp), callerSound.2 rfl, settled⟩

/-- Entering `notify_confirmed` after every sink has finished. -/
theorem notifyConfirmed_sound
    {caller : Caller}
    (core : Core settings sinks state)
    (unstalled : Unstalled state)
    (openBatch : OpenBatch sinks state.trace batch sinks.length)
    (sent : Output.dispatched batch ∈ state.trace)
    (callerSound : CallerSound caller state)
    (shared : batch.sinks = sinks) :
    Sound settings sinks (state.notifyConfirmed settings caller batch) := by
  unfold State.notifyConfirmed
  split
  · exact resume_sound core unstalled (openBatch.settled sent core.queue)
      callerSound shared
  · exact ⟨core.phase _, ⟨unstalled.flag, unstalled.trace⟩, shared,
      callerSound, sent, fun _ member => member, openBatch⟩

/-- Going on to the next sink of the list. -/
theorem nextSink_sound
    {caller : Caller}
    {position : Nat}
    (core : Core settings sinks state)
    (unstalled : Unstalled state)
    (openBatch : OpenBatch sinks state.trace batch position)
    (within : position ≤ sinks.length)
    (sent : Output.dispatched batch ∈ state.trace)
    (callerSound : CallerSound caller state)
    (shared : batch.sinks = sinks) :
    Sound settings sinks (state.nextSink settings caller batch position) := by
  unfold State.nextSink
  split
  · exact ⟨core.phase _, ⟨unstalled.flag, unstalled.trace⟩, shared,
      callerSound, sent, openBatch⟩
  · have last : position = sinks.length := by
      rw [shared] at *
      omega
    subst last
    exact notifyConfirmed_sound core unstalled openBatch sent callerSound
      shared

/-- Entering `dispatch` with an allowed batch. -/
theorem dispatch_sound
    {caller : Caller}
    (core : Core settings sinks state)
    (unstalled : Unstalled state)
    (openBatch : OpenBatch sinks state.trace batch 0)
    (size : SizeAllowed settings batch)
    (callerSound : CallerSound caller state)
    (shared : batch.sinks = sinks) :
    Sound settings sinks (state.dispatch settings caller batch) := by
  refine nextSink_sound
    (core.emit _ rfl rfl ?_)
    (unstalled.emit _ (by simp))
    (openBatch.silent silent_dispatched)
    (Nat.zero_le _) (by simp) callerSound shared
  intro other member
  simp only [List.mem_singleton, Output.dispatched.injEq] at member
  exact member ▸ size

/-- Taking the head of the queue keeps what holds everywhere. -/
theorem Core.dequeue
    {job : EventJob σ}
    {rest : List (EventJob σ)}
    (core : Core settings sinks state)
    (queue : state.queue = job :: rest) :
    Core settings sinks
      { state.emit [.dequeued job] with queue := rest } where
  queue := by
    have before := core.queue
    rw [queue] at before
    simp [before]
  shared := fun other member =>
    core.shared other (queue ▸ List.mem_cons_of_mem job member)
  sizes := by
    intro batch member
    exact core.sizes batch (by simpa using member)

/-! ## Every step but one keeps the invariant -/

/-- All jobs are posted with one sink list. -/
def SharesSinks
    (sinks : List (SinkHandle σ)) : Label σ ρ → Prop
  | .post job => job.sinks = sinks
  | _ => True

instance [DecidableEq σ]
    (sinks : List (SinkHandle σ)) :
    (label : Label σ ρ) → Decidable (SharesSinks sinks label)
  | .post job => inferInstanceAs (Decidable (job.sinks = sinks))
  | .stop | .checkRunning | .wait _ _ | .collect _ _ | .attempt _
  | .confirm _ | .tryDequeue => inferInstanceAs (Decidable True)

/-- Steps of a dispatcher whose stalls are reported. -/
def Permitted
    (settings : Settings)
    (sinks : List (SinkHandle σ))
    (state : State σ ρ)
    (label : Label σ ρ) : Prop :=
  SharesSinks sinks label ∧ ¬StallsUnreported settings state label

/-- A thread that has given up on a sink is sound once it has exited. -/
theorem exited_sound
    {position : Nat}
    (core : Core settings sinks state)
    (openBatch : OpenBatch sinks state.trace batch position)
    (stalled : Output.gaveUp position batch ∈ state.trace) :
    Sound settings sinks { state with phase := .exited } := by
  refine ⟨core.phase _, ?_, fun unstalled => absurd stalled (unstalled _ _)⟩
  intro index bound
  by_cases before : index < position
  · exact (openBatch.done index bound before) ▸ List.prefix_rfl
  · simp only [openBatch.todo index bound (Nat.le_of_not_lt before)]
    exact List.take_prefix _ _

/-- Giving up ends the thread, unless the stall goes unreported. -/
theorem dispatchFailed_sound
    {caller : Caller}
    {position : Nat}
    (core : Core settings sinks state)
    (openBatch : OpenBatch sinks state.trace batch position)
    (stalled : Output.gaveUp position batch ∈ state.trace)
    (unreported : state.fatalTriggered = false)
    (reports : caller = .processJobs → settings.onFatal = true) :
    Sound settings sinks (state.dispatchFailed settings caller) := by
  have fatalSilent : Silent [(.fatal : Output σ ρ)] :=
    ⟨rfl, fun _ => rfl⟩
  have fatalCore := core.emit [.fatal] rfl rfl (by simp)
  have fatalOpen := openBatch.silent fatalSilent
  have fatalStalled : Output.gaveUp position batch ∈
      (state.emit [.fatal]).trace := List.mem_append_left _ stalled
  cases installed : settings.onFatal with
  | true =>
      let reported : State σ ρ :=
        { state.emit [.fatal] with fatalTriggered := true }
      have reportedCore : Core settings sinks reported :=
        ⟨fatalCore.queue, fatalCore.shared, fatalCore.sizes⟩
      have final := exited_sound reportedCore fatalOpen fatalStalled
      cases caller <;>
        simpa [State.dispatchFailed, unreported, installed,
          State.leaveLoop, reported] using final
  | false =>
      have drain : caller ≠ .processJobs := by
        intro main
        simp [reports main] at installed
      have final := exited_sound core openBatch stalled
      cases caller with
      | processJobs => exact absurd rfl drain
      | drainLoop | drainEnd =>
          simpa [State.dispatchFailed, unreported, installed] using final

/-- Posting only extends the queue. -/
theorem post_sound
    {job : EventJob σ}
    (sound : Sound settings sinks state)
    (running : state.running = true)
    (shared : job.sinks = sinks) :
    Sound settings sinks
      { state.emit [.posted job] with queue := state.queue ++ [job] } := by
  obtain ⟨core, phase⟩ := sound
  refine ⟨⟨?_, ?_, ?_⟩, ?_⟩
  · simp [core.queue]
  · intro other member
    rcases List.mem_append.mp member with earlier | new
    · exact core.shared other earlier
    · exact (List.mem_singleton.mp new) ▸ shared
  · intro batch member
    exact core.sizes batch (by simpa using member)
  have unstalled : ∀ {old : State σ ρ}, Unstalled old →
      Unstalled { old.emit [.posted job] with
        queue := old.queue ++ [job] } := by
    intro old before
    have after := before.emit [.posted job] (by simp)
    exact ⟨after.flag, after.trace⟩
  have callerSound : ∀ {caller : Caller}, CallerSound caller state →
      CallerSound caller
        { state.emit [.posted job] with queue := state.queue ++ [job] } := by
    intro caller before
    refine ⟨before.1, fun drain => ?_⟩
    have stopped := before.1 (by simp [drain])
    simp [running] at stopped
  simp only [PhaseSound, emit_phase] at phase ⊢
  split <;> rename_i position <;> simp only [position] at phase
  · exact ⟨unstalled phase.1, phase.2.silent (silent_posted job)⟩
  · exact ⟨unstalled phase.1, phase.2.silent (silent_posted job)⟩
  · obtain ⟨before, same, size, openBatch⟩ := phase
    exact ⟨unstalled before, same, size,
      openBatch.silent (silent_posted job)⟩
  · obtain ⟨before, same, caller, sent, openBatch⟩ := phase
    exact ⟨unstalled before, same, callerSound caller,
      List.mem_append_left _ sent, openBatch.silent (silent_posted job)⟩
  · obtain ⟨before, same, caller, sent, pending, openBatch⟩ := phase
    exact ⟨unstalled before, same, callerSound caller,
      List.mem_append_left _ sent, pending,
      openBatch.silent (silent_posted job)⟩
  · -- The drain starts only after the destructor has begun.
    obtain ⟨_, _, _, stopped, _⟩ := phase
    simp [running] at stopped
  · refine ⟨?_, fun unstalled => ?_⟩
    · simpa using phase.1
    · have stopped := (phase.2 fun index batch member =>
        unstalled index batch (List.mem_append_left _ member)).1
      simp [running] at stopped

/-- Clearing `running_` is always sound. -/
theorem stop_sound
    (sound : Sound settings sinks state) :
    Sound settings sinks { state with running := false } := by
  obtain ⟨core, phase⟩ := sound
  refine ⟨⟨core.queue, core.shared, core.sizes⟩, ?_⟩
  simp only [PhaseSound] at phase ⊢
  split <;> rename_i position <;> simp only [position] at phase
  · exact ⟨⟨phase.1.flag, phase.1.trace⟩, phase.2⟩
  · exact ⟨⟨phase.1.flag, phase.1.trace⟩, phase.2⟩
  · exact ⟨⟨phase.1.flag, phase.1.trace⟩, phase.2⟩
  · obtain ⟨before, same, caller, openBatch⟩ := phase
    exact ⟨⟨before.flag, before.trace⟩, same, ⟨fun _ => rfl, caller.2⟩,
      openBatch⟩
  · obtain ⟨before, same, caller, openBatch⟩ := phase
    exact ⟨⟨before.flag, before.trace⟩, same, ⟨fun _ => rfl, caller.2⟩,
      openBatch⟩
  · obtain ⟨before, empty, same, _, size, openBatch⟩ := phase
    exact ⟨⟨before.flag, before.trace⟩, empty, same, trivial, size,
      openBatch⟩
  · exact ⟨phase.1, fun unstalled => ⟨trivial, (phase.2 unstalled).2⟩⟩

/-- The test at the head of the main loop. -/
theorem checkRunning_sound
    {next : State σ ρ}
    (sound : Sound settings sinks state)
    (taken : step settings state .checkRunning = some next) :
    Sound settings sinks next := by
  obtain ⟨core, phase⟩ := sound
  cases moves_of_step taken with
  | keepRunning position =>
      simp only [PhaseSound, position] at phase
      exact ⟨core.phase _, ⟨phase.1.flag, phase.1.trace⟩, phase.2⟩
  | leaveLoop position stopped =>
      simp only [PhaseSound, position] at phase
      exact leaveLoop_sound core phase.1 phase.2 stopped

/-- The timed wait for the first job of a batch. -/
theorem wait_sound
    {next : State σ ρ}
    {arrived : Bool}
    {now : Nat}
    (sound : Sound settings sinks state)
    (taken : step settings state (.wait arrived now) = some next) :
    Sound settings sinks next := by
  obtain ⟨core, phase⟩ := sound
  cases moves_of_step taken with
  | timeOut _ position =>
      simp only [PhaseSound, position] at phase
      exact ⟨core.phase _, ⟨phase.1.flag, phase.1.trace⟩, phase.2⟩
  | openBatch _ job rest position queue =>
      simp only [PhaseSound, position] at phase
      have unstalled := phase.1.emit [.dequeued job] (by simp)
      have shared : job.sinks = sinks :=
        core.shared job (queue ▸ List.mem_cons_self)
      refine ⟨(core.dequeue queue).phase _,
        ⟨unstalled.flag, unstalled.trace⟩, shared,
        ⟨Nat.le_refl 1, Nat.le_max_left _ _⟩, ?_⟩
      exact (phase.2.openBatch job.sinks).push job job.sinks

/-- One turn of the loop that fills a batch. -/
theorem collect_sound
    {next : State σ ρ}
    {arrived : Bool}
    {now : Nat}
    (sound : Sound settings sinks state)
    (taken : step settings state (.collect now arrived) = some next) :
    Sound settings sinks next := by
  obtain ⟨core, phase⟩ := sound
  cases moves_of_step taken with
  | fillBatch _ batch deadline job rest position room queue =>
      simp only [PhaseSound, position] at phase
      obtain ⟨unstalled, shared, size, openBatch⟩ := phase
      have kept := unstalled.emit [.dequeued job] (by simp)
      refine ⟨(core.dequeue queue).phase _, ⟨kept.flag, kept.trace⟩,
        shared, ?_, openBatch.push job batch.sinks⟩
      simp only [SizeAllowed, Batch.push, List.length_append,
        List.length_singleton]
      omega
  | closeBatch _ _ batch deadline position =>
      simp only [PhaseSound, position] at phase
      obtain ⟨unstalled, shared, size, openBatch⟩ := phase
      exact dispatch_sound core unstalled openBatch size
        ⟨fun drain => absurd rfl drain, fun drain => by cases drain⟩ shared

/-- One attempt of the retry loop. -/
theorem attempt_sound
    {next : State σ ρ}
    {outcome : Attempt ρ}
    (sound : Sound settings sinks state)
    (reported : ¬StallsUnreported settings state (.attempt outcome))
    (taken : step settings state (.attempt outcome) = some next) :
    Sound settings sinks next := by
  obtain ⟨core, phase⟩ := sound
  cases moves_of_step taken with
  | complete _ caller batch index backoff handle position present verdict =>
      simp only [PhaseSound, position] at phase
      obtain ⟨unstalled, shared, callerSound, sent, openBatch⟩ := phase
      have within : index < sinks.length :=
        shared ▸ (List.getElem?_eq_some_iff.mp present).1
      have calledOpen := openBatch.silent (silent_called index batch outcome)
      refine nextSink_sound
        ((core.emit _ rfl rfl (by simp)).emit _ rfl rfl (by simp))
        ((unstalled.emit _ (by simp)).emit _ (by simp))
        (calledOpen.complete fun other same required => ?_) within
        (by simp [sent]) callerSound shared
      rw [← shared, present] at same
      cases same
      exact mem_of_completed verdict required index batch state.trace
  | retry _ caller batch index backoff later handle position present =>
      simp only [PhaseSound, position] at phase
      obtain ⟨unstalled, shared, callerSound, sent, openBatch⟩ := phase
      have kept := unstalled.emit [.called index batch outcome] (by simp)
      exact ⟨(core.emit [.called index batch outcome] rfl rfl
          (by simp)).phase _, ⟨kept.flag, kept.trace⟩, shared, callerSound,
        List.mem_append_left _ sent,
        openBatch.silent (silent_called index batch outcome)⟩
  | giveUp _ caller batch index backoff handle position present verdict =>
      have reports := onFatal_of_gaveUp position present verdict reported
      simp only [PhaseSound, position] at phase
      obtain ⟨unstalled, _, _, _, openBatch⟩ := phase
      have calledOpen := openBatch.silent (silent_called index batch outcome)
      exact dispatchFailed_sound
        ((core.emit _ rfl rfl (by simp)).emit _ rfl rfl (by simp))
        (calledOpen.silent ⟨rfl, fun _ => rfl⟩) (by simp) unstalled.flag
        reports

/-- One call of `on_confirmed`. -/
theorem confirm_sound
    {next : State σ ρ}
    {source : SourceId}
    (sound : Sound settings sinks state)
    (taken : step settings state (.confirm source) = some next) :
    Sound settings sinks next := by
  obtain ⟨core, phase⟩ := sound
  cases moves_of_step taken with
  | confirmLast caller batch pending entry position member =>
      simp only [PhaseSound, position] at phase
      obtain ⟨unstalled, shared, callerSound, sent, _, openBatch⟩ := phase
      have confirmedCore := core.emit
        [.confirmed entry.1 entry.2] rfl rfl (by simp)
      have confirmedOpen :=
        openBatch.silent (silent_confirmed entry.1 entry.2)
      exact resume_sound confirmedCore (unstalled.emit _ (by simp))
        (confirmedOpen.settled (List.mem_append_left _ sent)
          confirmedCore.queue) callerSound shared
  | confirm caller batch pending entry position member =>
      simp only [PhaseSound, position] at phase
      obtain ⟨unstalled, shared, callerSound, sent, subset, openBatch⟩ :=
        phase
      have kept := unstalled.emit [.confirmed entry.1 entry.2] (by simp)
      exact ⟨(core.emit [.confirmed entry.1 entry.2] rfl rfl
          (by simp)).phase _, ⟨kept.flag, kept.trace⟩, shared, callerSound,
        List.mem_append_left _ sent,
        fun _ remaining => subset _ (List.mem_of_mem_erase remaining),
        openBatch.silent (silent_confirmed entry.1 entry.2)⟩

/-- The drain takes its sinks from the first job. -/
theorem drain_shared
    {job : EventJob σ}
    (own : batch.sinks = [] ∨ batch.sinks = sinks)
    (shared : job.sinks = sinks) :
    (if batch.sinks.isEmpty then job.sinks else batch.sinks) = sinks := by
  rcases own with empty | same
  · simp [empty, shared]
  · split
    · exact shared
    · exact same

/-- A drain that finds nothing more to dispatch has settled everything. -/
theorem OpenBatch.settled_of_empty
    {trace : List (Output σ ρ)}
    (openBatch : OpenBatch sinks trace batch 0)
    (empty : batch.jobs = []) :
    Settled sinks trace := by
  have all : (dequeued trace).take batch.first = dequeued trace := by
    simpa [empty] using openBatch.dequeued_eq
  refine ⟨fun index bound => ?_, fun index bound => ?_⟩
  · rw [openBatch.todo index bound (Nat.zero_le _), all]
  · apply openBatch.delivered index
    have total := openBatch.length_eq
    simp only [empty, List.length_nil] at total
    omega

/-- One evaluation of `try_dequeue` in the drain loop. -/
theorem tryDequeue_sound
    {next : State σ ρ}
    (sound : Sound settings sinks state)
    (taken : step settings state .tryDequeue = some next) :
    Sound settings sinks next := by
  obtain ⟨core, phase⟩ := sound
  cases moves_of_step taken with
  | drain batch job rest position queue room =>
      simp only [PhaseSound, position] at phase
      obtain ⟨unstalled, own, _, stopped, _, openBatch⟩ := phase
      have shared := drain_shared own
        (core.shared job (queue ▸ List.mem_cons_self))
      have kept := unstalled.emit [.dequeued job] (by simp)
      refine ⟨(core.dequeue queue).phase _, ⟨kept.flag, kept.trace⟩,
        .inr shared, fun _ => shared, stopped, ?_, openBatch.push job _⟩
      simp only [Batch.push, List.length_append, List.length_singleton]
      omega
  | drainFull batch job rest position queue full =>
      simp only [PhaseSound, position] at phase
      obtain ⟨unstalled, own, _, stopped, size, openBatch⟩ := phase
      have shared := drain_shared own
        (core.shared job (queue ▸ List.mem_cons_self))
      have kept := unstalled.emit [.dequeued job] (by simp)
      refine dispatch_sound (core.dequeue queue) ⟨kept.flag, kept.trace⟩
        (openBatch.push job _) ?_
        ⟨fun _ => stopped, fun drain => by cases drain⟩ shared
      simp only [SizeAllowed, Batch.push, List.length_append,
        List.length_singleton]
      omega
  | drainEmpty batch position queue empty =>
      simp only [PhaseSound, position] at phase
      obtain ⟨_, _, _, stopped, _, openBatch⟩ := phase
      have settled := openBatch.settled_of_empty empty
      exact ⟨core.phase _, fun index bound =>
        settled.completed index bound ▸ List.prefix_rfl,
        fun _ => ⟨stopped, queue, settled⟩⟩
  | drainRest batch position queue nonempty =>
      simp only [PhaseSound, position] at phase
      obtain ⟨unstalled, _, shared, stopped, size, openBatch⟩ := phase
      exact dispatch_sound core unstalled openBatch
        ⟨List.length_pos_iff.mpr nonempty, Nat.le_of_lt size⟩
        ⟨fun _ => stopped, fun _ => queue⟩ (shared nonempty)

/-- Every permitted step keeps the invariant. -/
theorem step_sound
    {label : Label σ ρ}
    {next : State σ ρ}
    (sound : Sound settings sinks state)
    (permitted : Permitted settings sinks state label)
    (taken : step settings state label = some next) :
    Sound settings sinks next := by
  cases label with
  | post job =>
      cases moves_of_step taken with
      | post _ running => exact post_sound sound running permitted.1
  | stop =>
      cases taken
      exact stop_sound sound
  | checkRunning => exact checkRunning_sound sound taken
  | wait arrived now => exact wait_sound sound taken
  | collect now arrived => exact collect_sound sound taken
  | attempt outcome =>
      exact attempt_sound sound permitted.2 taken
  | confirm source => exact confirm_sound sound taken
  | tryDequeue => exact tryDequeue_sound sound taken

/-- The freshly constructed dispatcher satisfies the invariant. -/
theorem initial_sound :
    Sound settings sinks ({} : State σ ρ) := by
  refine ⟨⟨rfl, by simp, by simp⟩, ⟨rfl, by simp⟩, ⟨?_, ?_⟩⟩
  · intro index _
    rfl
  · intro index bound
    simp [dequeued] at bound

/-- The invariant holds in every state of every permitted run. -/
theorem reachable_sound
    (reachable : Transition.Reachable (step settings)
      (Permitted settings sinks) ({} : State σ ρ) state) :
    Sound settings sinks state :=
  reachable.invariant (Sound settings sinks) initial_sound
    fun _ _ _ sound permitted taken =>
      step_sound sound permitted taken

/-! ## Delivery order -/

/-- Events of the batches for which one sink's turn completed, concatenated. -/
def completedEvents (index : Nat) (trace : List (Output σ ρ)) :
    List ChangeEvent :=
  (completedJobs index trace).map EventJob.ev

/-- Posted events in posting order. -/
def postedEvents (trace : List (Output σ ρ)) : List ChangeEvent :=
  (posted trace).map EventJob.ev

/-- Batches have an allowed size, each sink has finished a prefix of the
posted events, and a thread that exits without giving up on a required sink
has taken every sink through all of them. -/
structure Orderly
    (settings : Settings)
    (sinks : List (SinkHandle σ))
    (state : State σ ρ) : Prop where
  sizes : ∀ batch, Output.dispatched batch ∈ state.trace →
    1 ≤ batch.events.length ∧
      batch.events.length ≤ settings.maxBatchSize
  ordered : ∀ index < sinks.length,
    completedEvents index state.trace <+: postedEvents state.trace
  complete : state.phase = .exited →
    (∀ position batch, Output.gaveUp position batch ∉ state.trace) →
      ∀ index < sinks.length,
        completedEvents index state.trace = postedEvents state.trace

theorem Sound.completed_prefix
    (sound : Sound settings sinks state)
    {index : Nat}
    (bound : index < sinks.length) :
    completedJobs index state.trace <+: dequeued state.trace := by
  obtain ⟨core, phase⟩ := sound
  have finished : ∀ {position : Nat} {batch : Batch σ},
      OpenBatch sinks state.trace batch position →
      completedJobs index state.trace <+: dequeued state.trace := by
    intro position batch openBatch
    by_cases before : index < position
    · exact (openBatch.done index bound before) ▸ List.prefix_rfl
    · rw [openBatch.todo index bound (Nat.le_of_not_lt before)]
      exact List.take_prefix _ _
  simp only [PhaseSound] at phase
  split at phase
  · exact (phase.2.completed index bound) ▸ List.prefix_rfl
  · exact (phase.2.completed index bound) ▸ List.prefix_rfl
  · exact finished phase.2.2.2
  · exact finished phase.2.2.2.2
  · exact finished phase.2.2.2.2.2
  · exact finished phase.2.2.2.2.2
  · exact phase.1 index bound

/-- In every run whose main-loop stalls are reported, nothing is lost,
duplicated or reordered. -/
theorem orderly_of_reachable
    (settings : Settings)
    (sinks : List (SinkHandle σ))
    (state : State σ ρ)
    (positive : 1 ≤ settings.maxBatchSize)
    (reachable : Transition.Reachable (step settings)
      (Permitted settings sinks) {} state) :
    Orderly settings sinks state := by
  have sound := reachable_sound reachable
  refine ⟨fun batch member => ?_, fun index bound => ?_,
    fun exited unstalled index bound => ?_⟩
  · have size := sound.core.sizes batch member
    simp only [SizeAllowed] at size
    simp only [Batch.events, List.length_map]
    omega
  · apply List.IsPrefix.map
    rw [sound.core.queue]
    exact (sound.completed_prefix bound).trans (List.prefix_append _ _)
  · have final := sound.phase
    simp only [PhaseSound, exited] at final
    obtain ⟨_, drained, settled⟩ := final.2 unstalled
    rw [completedEvents, postedEvents, settled.completed index bound,
      sound.core.queue, drained, List.append_nil]

/-- An insert posted by source 7 at a given position. -/
def sampleJob (sinks : List (SinkHandle Unit)) (lsn : Nat) :
    EventJob Unit where
  ev := { op := .insert, tableName := "docs", commitLsn := lsn }
  sourceId := 7
  sinks := sinks

/-- Three jobs in batches of two: a best-effort sink throws, a required one
recovers on its second attempt, and the destructor drains the last job. -/
def drainedRun : List (Label Unit Unit) :=
  let sinks : List (SinkHandle Unit) := [⟨(), false⟩, ⟨(), true⟩]
  [.post (sampleJob sinks 10), .post (sampleJob sinks 20),
    .post (sampleJob sinks 30), .checkRunning, .wait true 0,
    .collect 0 true, .collect 0 true, .attempt (.threw 0),
    .attempt (.threw 0), .attempt (.returned ()), .confirm 7, .stop,
    .checkRunning, .tryDequeue, .tryDequeue, .attempt (.threw 0),
    .attempt (.returned ()), .confirm 7]

theorem orderly_drainedRun :
    ∃ state : State Unit Unit,
      Transition.Reachable (step { maxBatchSize := 2 })
        (Permitted { maxBatchSize := 2 } [⟨(), false⟩, ⟨(), true⟩])
        {} state ∧
      (state.phase = .exited ∧ (postedEvents state.trace).length = 3) ∧
      Orderly { maxBatchSize := 2 } [⟨(), false⟩, ⟨(), true⟩] state := by
  have shares : ∀ label ∈ drainedRun,
      SharesSinks [⟨(), false⟩, ⟨(), true⟩] label := by decide
  obtain ⟨state, reachable, final⟩ := Transition.exists_reachable_of_run
    (Permitted { maxBatchSize := 2 } [⟨(), false⟩, ⟨(), true⟩]) drainedRun
    (fun _ label member =>
      ⟨shares label member, fun stalls => by cases stalls.1⟩)
    (show (Transition.run (step { maxBatchSize := 2 }) {} drainedRun).any
      (fun state => state.phase = .exited ∧
        (postedEvents state.trace).length = 3) = true by decide)
  exact ⟨state, reachable, by simpa using final,
    orderly_of_reachable _ _ state (by decide) reachable⟩

/-- One required sink that stalls on the first of two jobs and accepts the
second one, which the shutdown drain hands to it. -/
def unreportedRun : List (Label Unit Unit) :=
  let sinks : List (SinkHandle Unit) := [⟨(), true⟩]
  [.post (sampleJob sinks 10), .post (sampleJob sinks 20), .checkRunning,
    .wait true 0, .collect 0 false, .attempt (.threw 60000000000),
    .tryDequeue, .attempt (.returned ())]

/-- Without a fatal callback the sink finishes the second event and not the
first, so the order is broken. -/
theorem not_orderly_unreportedRun :
    ¬∀ (settings : Settings) (sinks : List (SinkHandle Unit))
        (state : State Unit Unit),
      1 ≤ settings.maxBatchSize →
      Transition.Reachable (step settings)
        (fun _ label => SharesSinks sinks label) {} state →
      Orderly settings sinks state := by
  intro claim
  have shares : ∀ label ∈ unreportedRun,
      SharesSinks [⟨(), true⟩] label := by decide
  obtain ⟨state, reachable, final⟩ := Transition.exists_reachable_of_run
    (fun _ label => SharesSinks [⟨(), true⟩] label) unreportedRun
    (fun _ => shares)
    (show (Transition.run (step { onFatal := false }) {} unreportedRun).any
      (fun state => ¬completedEvents 0 state.trace <+:
        postedEvents state.trace) = true by decide)
  have ordered := (claim { onFatal := false } [⟨(), true⟩] state
    (by decide) reachable).ordered 0 (by decide)
  exact absurd ordered (by simpa using final)

end Dispatcher
end Walkrie
