import Walkrie.Dispatcher.Machine

/-!
# What a step adds to the trace

Every step only extends the trace.  This module says once which observations
each kind of step can add, so that an invariant about the trace does not have
to go through the statements of the thread again.
-/

namespace Walkrie
namespace Dispatcher

variable {σ ρ : Type}
variable {settings : Settings}
variable {state next : State σ ρ} {label : Label σ ρ} {batch : Batch σ}

/-! ## Projections of an extended trace -/

@[simp] theorem posted_append (first second : List (Output σ ρ)) :
    posted (first ++ second) = posted first ++ posted second := by
  simp [posted]

@[simp] theorem dequeued_append (first second : List (Output σ ρ)) :
    dequeued (first ++ second) = dequeued first ++ dequeued second := by
  simp [dequeued]

@[simp] theorem completedJobs_append
    (position : Nat)
    (first second : List (Output σ ρ)) :
    completedJobs position (first ++ second) =
      completedJobs position first ++ completedJobs position second := by
  simp [completedJobs]

@[simp] theorem posted_posted (job : EventJob σ) :
    posted [(.posted job : Output σ ρ)] = [job] := rfl

@[simp] theorem posted_dequeued (job : EventJob σ) :
    posted [(.dequeued job : Output σ ρ)] = [] := rfl

@[simp] theorem dequeued_posted (job : EventJob σ) :
    dequeued [(.posted job : Output σ ρ)] = [] := rfl

@[simp] theorem dequeued_dequeued (job : EventJob σ) :
    dequeued [(.dequeued job : Output σ ρ)] = [job] := rfl

@[simp] theorem completedJobs_posted (position : Nat) (job : EventJob σ) :
    completedJobs position [(.posted job : Output σ ρ)] = [] := rfl

@[simp] theorem completedJobs_dequeued (position : Nat) (job : EventJob σ) :
    completedJobs position [(.dequeued job : Output σ ρ)] = [] := rfl

@[simp] theorem dequeued_completed (position : Nat) :
    dequeued [(.completed position batch : Output σ ρ)] = [] := rfl

@[simp] theorem completedJobs_completed (position other : Nat) :
    completedJobs position [(.completed other batch : Output σ ρ)] =
      if other = position then batch.jobs else [] := by
  simp [completedJobs]

@[simp] theorem emit_trace (outputs : List (Output σ ρ)) :
    (state.emit outputs).trace = state.trace ++ outputs := rfl

@[simp] theorem emit_queue (outputs : List (Output σ ρ)) :
    (state.emit outputs).queue = state.queue := rfl

@[simp] theorem emit_running (outputs : List (Output σ ρ)) :
    (state.emit outputs).running = state.running := rfl

@[simp] theorem emit_fatalTriggered (outputs : List (Output σ ρ)) :
    (state.emit outputs).fatalTriggered = state.fatalTriggered := rfl

@[simp] theorem emit_phase (outputs : List (Output σ ρ)) :
    (state.emit outputs).phase = state.phase := rfl

/-! ## The verdict of the retry loop -/

/-- Outcomes after which the retry loop ends without a failure. -/
theorem dispatchWithRetry_completed
    {required : Bool}
    {backoff : Nat}
    {outcome : Attempt ρ}
    (verdict : dispatchWithRetry settings required backoff outcome =
      .completed) :
    (∃ report, outcome = .returned report) ∨ required = false := by
  cases outcome with
  | returned report => exact .inl ⟨report, rfl⟩
  | threw elapsed =>
      cases required with
      | false => exact .inr rfl
      | true =>
          simp only [dispatchWithRetry, Bool.not_true, Bool.false_eq_true,
            if_false] at verdict
          split at verdict <;> cases verdict

/-- The turn of a required sink is over with a call that returned. -/
theorem mem_of_completed
    {handle : SinkHandle σ}
    {backoff : Nat}
    {outcome : Attempt ρ}
    (verdict : dispatchWithRetry settings handle.required backoff outcome =
      .completed)
    (required : handle.required = true)
    (position : Nat)
    (batch : Batch σ)
    (trace : List (Output σ ρ)) :
    ∃ report, Output.called position batch (.returned report) ∈
      trace ++ [.called position batch outcome] := by
  rcases dispatchWithRetry_completed verdict with
    ⟨report, returned⟩ | bestEffort
  · exact ⟨report, by simp [returned]⟩
  · simp [required] at bestEffort

/-- Only a required sink that threw past the ceiling is given up on. -/
theorem dispatchWithRetry_gaveUp
    {required : Bool}
    {backoff : Nat}
    {outcome : Attempt ρ}
    (verdict : dispatchWithRetry settings required backoff outcome =
      .gaveUp) :
    required = true ∧ ∃ elapsed, outcome = .threw elapsed ∧
      settings.requiredRetryCeiling * nanosPerMilli ≤ elapsed := by
  cases outcome with
  | returned report => cases verdict
  | threw elapsed =>
      cases required with
      | false => cases verdict
      | true =>
          refine ⟨rfl, elapsed, rfl, ?_⟩
          simp only [dispatchWithRetry, Bool.not_true, Bool.false_eq_true,
            if_false] at verdict
          by_contra short
          simp [short] at verdict

/-! ## What a step can do -/

/-- The steps of the dispatcher, each with what the invariants have to know of
it.  Why a batch is closed is not among that. -/
inductive Moves (settings : Settings) (state : State σ ρ) :
    Label σ ρ → State σ ρ → Prop
  | post
      (job : EventJob σ)
      (running : state.running = true) :
      Moves settings state (.post job)
        { state.emit [.posted job] with queue := state.queue ++ [job] }
  | stop : Moves settings state .stop { state with running := false }
  | keepRunning
      (phase : state.phase = .loopHead) :
      Moves settings state .checkRunning { state with phase := .waiting }
  | leaveLoop
      (phase : state.phase = .loopHead)
      (stopped : state.running = false) :
      Moves settings state .checkRunning state.leaveLoop
  | timeOut
      (now : Nat)
      (phase : state.phase = .waiting) :
      Moves settings state (.wait false now) { state with phase := .loopHead }
  | openBatch
      (now : Nat)
      (job : EventJob σ)
      (rest : List (EventJob σ))
      (phase : state.phase = .waiting)
      (queue : state.queue = job :: rest) :
      Moves settings state (.wait true now)
        { state.emit [.dequeued job] with
          queue := rest
          phase := .collecting ((state.newBatch job.sinks).push job)
            (now + settings.batchTimeout * nanosPerMilli) }
  | fillBatch
      (now : Nat)
      (batch : Batch σ)
      (deadline : Nat)
      (job : EventJob σ)
      (rest : List (EventJob σ))
      (phase : state.phase = .collecting batch deadline)
      (room : batch.jobs.length < settings.maxBatchSize)
      (queue : state.queue = job :: rest) :
      Moves settings state (.collect now true)
        { state.emit [.dequeued job] with
          queue := rest
          phase := .collecting (batch.push job) deadline }
  | closeBatch
      (now : Nat)
      (arrived : Bool)
      (batch : Batch σ)
      (deadline : Nat)
      (phase : state.phase = .collecting batch deadline) :
      Moves settings state (.collect now arrived)
        (state.dispatch settings .processJobs batch)
  | complete
      (outcome : Attempt ρ)
      (caller : Caller)
      (batch : Batch σ)
      (position backoff : Nat)
      (handle : SinkHandle σ)
      (phase : state.phase = .dispatching caller batch position backoff)
      (present : batch.sinks[position]? = some handle)
      (verdict : dispatchWithRetry settings handle.required backoff outcome =
        .completed) :
      Moves settings state (.attempt outcome)
        (((state.emit [.called position batch outcome]).emit
          [.completed position batch]).nextSink settings caller batch
            (position + 1))
  | retry
      (outcome : Attempt ρ)
      (caller : Caller)
      (batch : Batch σ)
      (position backoff later : Nat)
      (handle : SinkHandle σ)
      (phase : state.phase = .dispatching caller batch position backoff)
      (present : batch.sinks[position]? = some handle) :
      Moves settings state (.attempt outcome)
        { state.emit [.called position batch outcome] with
          phase := .dispatching caller batch position later }
  | giveUp
      (outcome : Attempt ρ)
      (caller : Caller)
      (batch : Batch σ)
      (position backoff : Nat)
      (handle : SinkHandle σ)
      (phase : state.phase = .dispatching caller batch position backoff)
      (present : batch.sinks[position]? = some handle)
      (verdict : dispatchWithRetry settings handle.required backoff outcome =
        .gaveUp) :
      Moves settings state (.attempt outcome)
        (((state.emit [.called position batch outcome]).emit
          [.gaveUp position batch]).dispatchFailed settings caller)
  | confirmLast
      (caller : Caller)
      (batch : Batch σ)
      (pending : List (SourceId × Nat))
      (entry : SourceId × Nat)
      (phase : state.phase = .notifying caller batch pending)
      (member : entry ∈ pending) :
      Moves settings state (.confirm entry.1)
        ((state.emit [.confirmed entry.1 entry.2]).resume caller batch)
  | confirm
      (caller : Caller)
      (batch : Batch σ)
      (pending : List (SourceId × Nat))
      (entry : SourceId × Nat)
      (phase : state.phase = .notifying caller batch pending)
      (member : entry ∈ pending) :
      Moves settings state (.confirm entry.1)
        { state.emit [.confirmed entry.1 entry.2] with
          phase := .notifying caller batch (pending.erase entry) }
  | drain
      (batch : Batch σ)
      (job : EventJob σ)
      (rest : List (EventJob σ))
      (phase : state.phase = .draining batch)
      (queue : state.queue = job :: rest)
      (room : batch.jobs.length + 1 < settings.maxBatchSize) :
      Moves settings state .tryDequeue
        { state.emit [.dequeued job] with
          queue := rest
          phase := .draining
            { batch.push job with
              sinks :=
                if batch.sinks.isEmpty then job.sinks else batch.sinks } }
  | drainFull
      (batch : Batch σ)
      (job : EventJob σ)
      (rest : List (EventJob σ))
      (phase : state.phase = .draining batch)
      (queue : state.queue = job :: rest)
      (full : settings.maxBatchSize ≤ batch.jobs.length + 1) :
      Moves settings state .tryDequeue
        (State.dispatch settings .drainLoop
          { batch.push job with
            sinks :=
              if batch.sinks.isEmpty then job.sinks else batch.sinks }
          { state.emit [.dequeued job] with queue := rest })
  | drainEmpty
      (batch : Batch σ)
      (phase : state.phase = .draining batch)
      (queue : state.queue = [])
      (empty : batch.jobs = []) :
      Moves settings state .tryDequeue { state with phase := .exited }
  | drainRest
      (batch : Batch σ)
      (phase : state.phase = .draining batch)
      (queue : state.queue = [])
      (nonempty : batch.jobs ≠ []) :
      Moves settings state .tryDequeue
        (state.dispatch settings .drainEnd batch)

theorem moves_of_step (taken : step settings state label = some next) :
    Moves settings state label next := by
  cases label with
  | post job =>
      simp only [step] at taken
      split at taken <;> rename_i running <;> cases taken
      exact .post job running
  | stop =>
      cases taken
      exact .stop
  | checkRunning =>
      simp only [step] at taken
      split at taken <;> rename_i phase
      · split at taken <;> rename_i running <;> cases taken
        · exact .keepRunning phase
        · exact .leaveLoop phase (by simpa using running)
      · cases taken
  | wait arrived now =>
      simp only [step] at taken
      split at taken
      · rename_i phase
        cases taken
        exact .timeOut now phase
      · rename_i job rest phase queue
        cases taken
        exact .openBatch now job rest phase queue
      · cases taken
  | collect now arrived =>
      simp only [step] at taken
      split at taken <;> rename_i phase
      · split at taken <;> rename_i room
        · cases taken
          exact .closeBatch now arrived _ _ phase
        · split at taken
          · cases taken
            exact .closeBatch now arrived _ _ phase
          · split at taken
            · cases taken
              exact .closeBatch now false _ _ phase
            · rename_i job rest queue
              cases taken
              exact .fillBatch now _ _ job rest phase (Nat.lt_of_not_le room)
                queue
            · cases taken
      · cases taken
  | attempt outcome =>
      simp only [step] at taken
      split at taken
      · rename_i caller batch position backoff phase
        split at taken
        · cases taken
        · rename_i handle present
          split at taken <;> rename_i verdict <;> cases taken
          · exact .complete outcome caller batch position backoff handle phase
              present verdict
          · exact .retry outcome caller batch position backoff _ handle phase
              present
          · exact .giveUp outcome caller batch position backoff handle phase
              present verdict
      · cases taken
  | confirm source =>
      simp only [step] at taken
      split at taken
      · rename_i caller batch pending phase
        split at taken
        · cases taken
        · rename_i entry found
          have member := List.mem_of_find?_eq_some found
          have own : entry.1 = source := by
            simpa using List.find?_some found
          subst own
          split at taken <;> cases taken
          · exact .confirmLast caller batch pending entry phase member
          · exact .confirm caller batch pending entry phase member
      · cases taken
  | tryDequeue =>
      simp only [step] at taken
      split at taken
      · rename_i batch job rest phase queue
        have length : (batch.push job).jobs.length = batch.jobs.length + 1 :=
          List.length_append
        split at taken <;> rename_i full <;> cases taken
        · exact .drainFull batch job rest phase queue (length ▸ full)
        · exact .drain batch job rest phase queue
            (length ▸ Nat.lt_of_not_le full)
      · rename_i batch phase queue
        split at taken <;> rename_i emptiness <;> cases taken
        · exact .drainEmpty batch phase queue (by simpa using emptiness)
        · exact .drainRest batch phase queue (by simpa using emptiness)
      · cases taken

/-! ## What each statement adds to the trace -/

@[simp] theorem leaveLoop_trace : state.leaveLoop.trace = state.trace := rfl

@[simp] theorem leaveLoop_fatalTriggered :
    state.leaveLoop.fatalTriggered = state.fatalTriggered := rfl

@[simp] theorem resume_trace (caller : Caller) :
    (state.resume caller batch).trace = state.trace := by
  cases caller <;> rfl

@[simp] theorem resume_fatalTriggered (caller : Caller) :
    (state.resume caller batch).fatalTriggered = state.fatalTriggered := by
  cases caller <;> rfl

@[simp] theorem notifyConfirmed_trace (caller : Caller) :
    (state.notifyConfirmed settings caller batch).trace = state.trace := by
  unfold State.notifyConfirmed
  split <;> simp

@[simp] theorem notifyConfirmed_fatalTriggered (caller : Caller) :
    (state.notifyConfirmed settings caller batch).fatalTriggered =
      state.fatalTriggered := by
  unfold State.notifyConfirmed
  split <;> simp

@[simp] theorem nextSink_trace (caller : Caller) (position : Nat) :
    (state.nextSink settings caller batch position).trace = state.trace := by
  unfold State.nextSink
  split <;> simp

@[simp] theorem nextSink_fatalTriggered (caller : Caller) (position : Nat) :
    (state.nextSink settings caller batch position).fatalTriggered =
      state.fatalTriggered := by
  unfold State.nextSink
  split <;> simp

@[simp] theorem dispatch_trace (caller : Caller) :
    (state.dispatch settings caller batch).trace =
      state.trace ++ [.dispatched batch] := by
  simp [State.dispatch]

@[simp] theorem dispatch_fatalTriggered (caller : Caller) :
    (state.dispatch settings caller batch).fatalTriggered =
      state.fatalTriggered := by
  simp [State.dispatch]

/-- What `dispatch` reports when it returns false. -/
def fatalReport (settings : Settings) (state : State σ ρ) :
    List (Output σ ρ) :=
  if !state.fatalTriggered && settings.onFatal then [.fatal] else []

theorem dispatchFailed_trace (caller : Caller) :
    (state.dispatchFailed settings caller).trace =
      state.trace ++ fatalReport settings state := by
  cases caller <;> simp only [State.dispatchFailed, fatalReport] <;>
    split <;> simp

/-- A reported stall ends the thread, and so does any stall in the drain. -/
theorem dispatchFailed_phase
    {caller : Caller}
    (reported : caller = .processJobs →
      state.fatalTriggered = true ∨ settings.onFatal = true) :
    (state.dispatchFailed settings caller).phase = .exited := by
  cases caller with
  | processJobs =>
      have known := reported rfl
      cases flag : state.fatalTriggered <;>
        simp_all [State.dispatchFailed, State.leaveLoop]
  | drainLoop => rfl
  | drainEnd => rfl

/-- The step the invariant does not survive: the main loop gives up on a
required sink while no fatal callback is installed. -/
def StallsUnreported
    (settings : Settings)
    (state : State σ ρ)
    (label : Label σ ρ) : Prop :=
  settings.onFatal = false ∧
    ∃ batch position backoff handle elapsed,
      state.phase = .dispatching .processJobs batch position backoff ∧
      batch.sinks[position]? = some handle ∧
      handle.required = true ∧
      label = .attempt (.threw elapsed) ∧
      settings.requiredRetryCeiling * nanosPerMilli ≤ elapsed

/-- Observations that are neither a stall nor its report. -/
def Calm (outputs : List (Output σ ρ)) : Prop :=
  ∀ output ∈ outputs,
    output ≠ .fatal ∧ ∀ position batch, output ≠ .gaveUp position batch

/-- What an observation says about the step it comes from: jobs are posted by
`post_job`, positions confirmed by the callback for their source, and a sink
is called by the retry loop at its own position. -/
def Output.CausedBy
    (state : State σ ρ)
    (label : Label σ ρ) : Output σ ρ → Prop
  | .posted job => label = .post job
  | .confirmed source _ => label = .confirm source
  | .called position batch outcome =>
      label = .attempt outcome ∧
        ∃ caller backoff,
          state.phase = .dispatching caller batch position backoff
  | _ => True

/-- Every observation is caused by the step. -/
def Attributed
    (state : State σ ρ)
    (label : Label σ ρ)
    (outputs : List (Output σ ρ)) : Prop :=
  ∀ output ∈ outputs, output.CausedBy state label

/-- What one step adds to the trace: calm observations that leave
`fatal_triggered_` alone, or a stall that ends the thread if it is reported. -/
def Observed
    (settings : Settings)
    (state : State σ ρ)
    (label : Label σ ρ)
    (next : State σ ρ) : Prop :=
  ∃ outputs, next.trace = state.trace ++ outputs ∧
    Attributed state label outputs ∧
    (Calm outputs ∧ next.fatalTriggered = state.fatalTriggered ∨
      ∃ position batch outcome,
        outputs = .called position batch outcome ::
          .gaveUp position batch :: fatalReport settings state ∧
        (state.fatalTriggered = false →
          ¬StallsUnreported settings state label → next.phase = .exited))

theorem Observed.calm
    (outputs : List (Output σ ρ))
    (calm : Calm outputs ∧ Attributed state label outputs)
    (trace : next.trace = state.trace ++ outputs)
    (flag : next.fatalTriggered = state.fatalTriggered) :
    Observed settings state label next :=
  ⟨outputs, trace, calm.2, .inl ⟨calm.1, flag⟩⟩

/-- A step that nobody observes. -/
theorem Observed.unseen
    (trace : next.trace = state.trace)
    (flag : next.fatalTriggered = state.fatalTriggered) :
    Observed settings state label next :=
  .calm [] (by simp [Calm, Attributed]) (by simp [trace]) flag

/-- A step that takes a job off the queue. -/
theorem Observed.dequeued
    (job : EventJob σ)
    (trace : next.trace = state.trace ++ [.dequeued job])
    (flag : next.fatalTriggered = state.fatalTriggered) :
    Observed settings state label next :=
  .calm [.dequeued job] (by simp [Calm, Attributed, Output.CausedBy]) trace
    flag

theorem attributed_fatalReport
    (settings : Settings)
    (state : State σ ρ)
    (label : Label σ ρ) :
    Attributed state label (fatalReport settings state) := by
  unfold fatalReport
  split <;> simp [Attributed, Output.CausedBy]

/-- When the main loop gives up on a sink and the stall is not one of those
that stay unreported, a fatal callback is installed. -/
theorem onFatal_of_gaveUp
    {outcome : Attempt ρ}
    {caller : Caller}
    {position backoff : Nat}
    {handle : SinkHandle σ}
    (phase : state.phase = .dispatching caller batch position backoff)
    (present : batch.sinks[position]? = some handle)
    (verdict : dispatchWithRetry settings handle.required backoff outcome =
      .gaveUp)
    (reported : ¬StallsUnreported settings state (.attempt outcome))
    (main : caller = .processJobs) :
    settings.onFatal = true := by
  obtain ⟨required, elapsed, threw, late⟩ := dispatchWithRetry_gaveUp verdict
  by_contra missing
  exact reported ⟨by simpa using missing, batch, position, backoff, handle,
    elapsed, main ▸ phase, present, required, congrArg _ threw, late⟩

/-- Every step is calm or stalls. -/
theorem step_observed (taken : step settings state label = some next) :
    Observed settings state label next := by
  cases moves_of_step taken with
  | post job running =>
      exact .calm [.posted job]
        (by simp [Calm, Attributed, Output.CausedBy]) rfl rfl
  | stop => exact .unseen rfl rfl
  | keepRunning phase => exact .unseen rfl rfl
  | leaveLoop phase stopped => exact .unseen rfl rfl
  | timeOut now phase => exact .unseen rfl rfl
  | openBatch now job rest phase queue => exact .dequeued job rfl rfl
  | fillBatch now batch deadline job rest phase room queue =>
      exact .dequeued job rfl rfl
  | closeBatch now arrived batch deadline phase =>
      exact .calm [.dispatched batch]
        (by simp [Calm, Attributed, Output.CausedBy]) (by simp) (by simp)
  | complete outcome caller batch position backoff handle phase present =>
      exact .calm [.called position batch outcome, .completed position batch]
        (by simp [Calm, Attributed, Output.CausedBy, phase]) (by simp)
        (by simp)
  | retry outcome caller batch position backoff later handle phase present =>
      exact .calm [.called position batch outcome]
        (by simp [Calm, Attributed, Output.CausedBy, phase]) rfl rfl
  | giveUp outcome caller batch position backoff handle phase present
      verdict =>
      refine ⟨.called position batch outcome :: .gaveUp position batch ::
        fatalReport settings state, ?_, ?_,
        .inr ⟨position, batch, outcome, rfl, fun _ reported =>
          dispatchFailed_phase fun main => .inr
            (onFatal_of_gaveUp phase present verdict reported main)⟩⟩
      · rw [dispatchFailed_trace]
        simp [fatalReport]
      · have called : (Output.called position batch outcome).CausedBy state
            (.attempt outcome) := ⟨rfl, caller, backoff, phase⟩
        have report := attributed_fatalReport settings state
          (.attempt outcome)
        simpa [Attributed] using ⟨called, trivial, report⟩
  | confirmLast caller batch pending entry phase member =>
      exact .calm [.confirmed entry.1 entry.2]
        (by simp [Calm, Attributed, Output.CausedBy]) (by simp) (by simp)
  | confirm caller batch pending entry phase member =>
      exact .calm [.confirmed entry.1 entry.2]
        (by simp [Calm, Attributed, Output.CausedBy]) rfl rfl
  | drain batch job rest phase queue room => exact .dequeued job rfl rfl
  | drainFull batch job rest phase queue full =>
      exact .calm _ (by simp [Calm, Attributed, Output.CausedBy])
        ((dispatch_trace _).trans (List.append_assoc _ _ _)) (by simp)
  | drainEmpty batch phase queue empty => exact .unseen rfl rfl
  | drainRest batch phase queue nonempty =>
      exact .calm _ (by simp [Calm, Attributed, Output.CausedBy])
        (dispatch_trace _) (by simp)

/-- What the callback for a source confirms. -/
theorem confirm_of_step
    {source : SourceId}
    (taken : step settings state (.confirm source) = some next) :
    ∃ caller batch pending entry,
      state.phase = .notifying caller batch pending ∧ entry ∈ pending ∧
      entry.1 = source ∧
      next.trace = state.trace ++ [.confirmed entry.1 entry.2] := by
  cases moves_of_step taken with
  | confirmLast caller batch pending entry phase member =>
      exact ⟨caller, batch, pending, entry, phase, member, rfl, by simp⟩
  | confirm caller batch pending entry phase member =>
      exact ⟨caller, batch, pending, entry, phase, member, rfl, rfl⟩

/-- An exited thread only watches jobs being posted. -/
theorem step_exited
    (exited : state.phase = .exited)
    (taken : step settings state label = some next) :
    next.phase = .exited ∧
    ∃ outputs, next.trace = state.trace ++ outputs ∧
      ∀ output ∈ outputs, ∃ job, output = .posted job := by
  cases label with
  | post job =>
      cases moves_of_step taken with
      | post _ running => exact ⟨exited, [.posted job], rfl, by simp⟩
  | stop =>
      cases taken
      exact ⟨exited, [], by simp, by simp⟩
  | _ => simp [step, exited] at taken

end Dispatcher
end Walkrie
