import Walkrie.Event
import Walkrie.Library.Transition

/-!
# The event dispatcher as a state machine

The worker thread of `EventDispatcher` is modelled statement by statement: the
timed main loop, the per-sink retry loop, the confirmation callbacks and the
shutdown drain.  Everything the thread does not decide itself is a label:
arrival of jobs, the outcome of a timed wait, clock readings, the outcome of a
sink's `call_batch`, and the moment the destructor clears `running_`.

Each step appends what an observer sees to the trace.  Clock readings are in
nanoseconds and configured durations in milliseconds, as in the source.
-/

namespace Walkrie
namespace Dispatcher

/-- Identifier of a replication source. -/
abbrev SourceId := Nat

/-- A sink together with its resolved durability tier. -/
structure SinkHandle (σ : Type) where
  sink : σ
  required : Bool
  deriving DecidableEq

/-- A queued event with the sinks it is to be dispatched to. -/
structure EventJob (σ : Type) where
  ev : ChangeEvent
  sourceId : SourceId := 0
  sinks : List (SinkHandle σ)
  deriving DecidableEq

/-- Constructor arguments, and whether each callback has been installed. -/
structure Settings where
  maxBatchSize : Nat := 1
  batchTimeout : Nat := 50
  requiredRetryInitialBackoff : Nat := 500
  requiredRetryCeiling : Nat := 60000
  onConfirmed : Bool := true
  onFatal : Bool := true

/-- How one invocation of a sink's `call_batch` ended.  A normal return carries
the sink's own report; an exception carries the time since the first attempt. -/
inductive Attempt (ρ : Type)
  | returned (report : ρ)
  | threw (elapsed : Nat)
  deriving DecidableEq

/-- What the retry loop does after one attempt. -/
inductive Verdict
  | completed
  | gaveUp
  | retry (sleepFor : Nat) (backoff : Nat)
  deriving DecidableEq

/-- Nanoseconds in one millisecond. -/
def nanosPerMilli : Nat := 1000000

/-- Body of the loop of `dispatch_with_retry`.  The backoff has no upper bound
here; in the source it is a 64-bit number of milliseconds, which doubling would
make overflow after some sixty retries. -/
def dispatchWithRetry
    (settings : Settings)
    (required : Bool)
    (backoff : Nat) : Attempt ρ → Verdict
  | .returned _ => .completed
  | .threw elapsed =>
      -- A best-effort sink is logged and skipped: not a dispatch failure.
      if !required then .completed
      else if settings.requiredRetryCeiling * nanosPerMilli ≤ elapsed then
        .gaveUp
      else
        let remaining :=
          (settings.requiredRetryCeiling * nanosPerMilli - elapsed) /
            nanosPerMilli
        .retry (min remaining backoff) (backoff * 2)

/-- Events collected for one dispatch, with the sink list they share.  `first`
is a history variable: how many jobs were dequeued before this batch. -/
structure Batch (σ : Type) where
  first : Nat
  jobs : List (EventJob σ)
  sinks : List (SinkHandle σ)
  deriving DecidableEq

/-- `lsn = max(lsn, commit_lsn)` on the entry of one source, a missing entry
being created as zero. -/
def raiseLsn (source : SourceId) (lsn : Nat) :
    List (SourceId × Nat) → List (SourceId × Nat)
  | [] => [(source, lsn)]
  | entry :: entries =>
      if entry.1 = source then (source, max entry.2 lsn) :: entries
      else entry :: raiseLsn source lsn entries

namespace Batch

/-- The vector handed to `call_batch`. -/
def events (batch : Batch σ) : List ChangeEvent :=
  batch.jobs.map EventJob.ev

/-- `batch_max_lsn` after the jobs of the batch have been pushed. -/
def maxLsn (batch : Batch σ) : List (SourceId × Nat) :=
  batch.jobs.foldl
    (fun lsns job => raiseLsn job.sourceId job.ev.commitLsn lsns) []

/-- Add one dequeued job to the batch. -/
def push (batch : Batch σ) (job : EventJob σ) : Batch σ :=
  { batch with jobs := batch.jobs ++ [job] }

end Batch

/-- Which call of `dispatch` is in progress: the main loop's, the one inside
the drain loop, or the flush of the partial batch after it. -/
inductive Caller
  | processJobs
  | drainLoop
  | drainEnd
  deriving DecidableEq

/-- Program position of the worker thread. -/
inductive Phase (σ : Type)
  /-- At the test of `running_`. -/
  | loopHead
  /-- In the 200 ms `wait_dequeue_timed`. -/
  | waiting
  /-- In the inner loop that fills a batch until its deadline. -/
  | collecting (batch : Batch σ) (deadline : Nat)
  /-- In the retry loop of the sink at `position`. -/
  | dispatching
      (caller : Caller) (batch : Batch σ) (position : Nat) (backoff : Nat)
  /-- In `notify_confirmed`, with the entries still to be reported. -/
  | notifying
      (caller : Caller) (batch : Batch σ) (pending : List (SourceId × Nat))
  /-- In `drain_remaining`, at `try_dequeue`. -/
  | draining (batch : Batch σ)
  | exited
  deriving DecidableEq

/-- What an observer sees of the dispatcher. -/
inductive Output (σ ρ : Type)
  | posted (job : EventJob σ)
  | dequeued (job : EventJob σ)
  | dispatched (batch : Batch σ)
  | called (position : Nat) (batch : Batch σ) (attempt : Attempt ρ)
  | completed (position : Nat) (batch : Batch σ)
  | gaveUp (position : Nat) (batch : Batch σ)
  | fatal
  | confirmed (source : SourceId) (lsn : Nat)
  deriving DecidableEq

/-- Members of the dispatcher, the position of its thread and its trace. -/
structure State (σ ρ : Type) where
  queue : List (EventJob σ) := []
  running : Bool := true
  fatalTriggered : Bool := false
  phase : Phase σ := .loopHead
  trace : List (Output σ ρ) := []
  deriving DecidableEq

/-- Choices made outside the worker thread. -/
inductive Label (σ ρ : Type)
  | post (job : EventJob σ)
  | stop
  | checkRunning
  | wait (arrived : Bool) (now : Nat)
  | collect (now : Nat) (arrived : Bool)
  | attempt (outcome : Attempt ρ)
  | confirm (source : SourceId)
  | tryDequeue
  deriving DecidableEq

/-! ## Reading a trace -/

/-- Jobs handed to `post_job`, in posting order. -/
def posted (trace : List (Output σ ρ)) : List (EventJob σ) :=
  trace.flatMap fun
    | .posted job => [job]
    | _ => []

/-- Jobs taken out of the queue, in that order. -/
def dequeued (trace : List (Output σ ρ)) : List (EventJob σ) :=
  trace.flatMap fun
    | .dequeued job => [job]
    | _ => []

/-- Jobs of the batches for which one sink's turn completed. -/
def completedJobs (position : Nat) (trace : List (Output σ ρ)) :
    List (EventJob σ) :=
  trace.flatMap fun
    | .completed other batch => if other = position then batch.jobs else []
    | _ => []

/-- The last value passed to `on_confirmed` for one source. -/
def lastConfirmed (source : SourceId) (trace : List (Output σ ρ)) :
    Option Nat :=
  trace.foldl
    (fun last output =>
      match output with
      | .confirmed other lsn => if other = source then some lsn else last
      | _ => last)
    none

/-! ## The statements of the worker thread -/

namespace State

/-- Append observations to the trace. -/
def emit (state : State σ ρ) (outputs : List (Output σ ρ)) : State σ ρ :=
  { state with trace := state.trace ++ outputs }

/-- A batch with no job yet. -/
def newBatch (state : State σ ρ) (sinks : List (SinkHandle σ)) : Batch σ where
  first := (dequeued state.trace).length
  jobs := []
  sinks := sinks

/-- `if (!fatal_triggered_) drain_remaining();` -/
def leaveLoop (state : State σ ρ) : State σ ρ :=
  { state with
    phase :=
      if state.fatalTriggered then .exited
      else .draining (state.newBatch []) }

/-- Continue after the confirmations of a batch. -/
def resume (caller : Caller) (batch : Batch σ) (state : State σ ρ) :
    State σ ρ :=
  match caller with
  | .processJobs => { state with phase := .loopHead }
  | .drainLoop =>
      { state with phase := .draining (state.newBatch batch.sinks) }
  | .drainEnd => { state with phase := .exited }

/-- Enter `notify_confirmed`. -/
def notifyConfirmed
    (settings : Settings)
    (caller : Caller)
    (batch : Batch σ)
    (state : State σ ρ) : State σ ρ :=
  if !settings.onConfirmed || batch.maxLsn.isEmpty then
    state.resume caller batch
  else { state with phase := .notifying caller batch batch.maxLsn }

/-- Go on with the sink at `position`, or leave the loop over the sinks. -/
def nextSink
    (settings : Settings)
    (caller : Caller)
    (batch : Batch σ)
    (position : Nat)
    (state : State σ ρ) : State σ ρ :=
  if position < batch.sinks.length then
    { state with
      phase := .dispatching caller batch position
        settings.requiredRetryInitialBackoff }
  else state.notifyConfirmed settings caller batch

/-- Enter `dispatch`. -/
def dispatch
    (settings : Settings)
    (caller : Caller)
    (batch : Batch σ)
    (state : State σ ρ) : State σ ρ :=
  (state.emit [.dispatched batch]).nextSink settings caller batch 0

/-- `dispatch` returns false: report the fatal stall once, then leave the loop
it was called from. -/
def dispatchFailed
    (settings : Settings)
    (caller : Caller)
    (state : State σ ρ) : State σ ρ :=
  let reported : State σ ρ :=
    if !state.fatalTriggered && settings.onFatal then
      { state.emit [.fatal] with fatalTriggered := true }
    else state
  match caller with
  | .processJobs => reported.leaveLoop
  | .drainLoop | .drainEnd => { reported with phase := .exited }

end State

/-- One step of the dispatcher under a given outside choice. -/
def step (settings : Settings) (state : State σ ρ) :
    Label σ ρ → Option (State σ ρ)
  | .post job =>
      if state.running then
        some { state.emit [.posted job] with queue := state.queue ++ [job] }
      else none
  | .stop => some { state with running := false }
  | .checkRunning =>
      match state.phase with
      | .loopHead =>
          if state.running then some { state with phase := .waiting }
          else some state.leaveLoop
      | _ => none
  | .wait arrived now =>
      match state.phase, arrived, state.queue with
      | .waiting, false, _ => some { state with phase := .loopHead }
      | .waiting, true, job :: rest =>
          some { state.emit [.dequeued job] with
            queue := rest
            phase := .collecting
              ((state.newBatch job.sinks).push job)
              (now + settings.batchTimeout * nanosPerMilli) }
      | _, _, _ => none
  | .collect now arrived =>
      match state.phase with
      | .collecting batch deadline =>
          if settings.maxBatchSize ≤ batch.jobs.length then
            some (state.dispatch settings .processJobs batch)
          else if deadline ≤ now then
            some (state.dispatch settings .processJobs batch)
          else
            match arrived, state.queue with
            | false, _ => some (state.dispatch settings .processJobs batch)
            | true, job :: rest =>
                some { state.emit [.dequeued job] with
                  queue := rest
                  phase := .collecting (batch.push job) deadline }
            | true, [] => none
      | _ => none
  | .attempt outcome =>
      match state.phase with
      | .dispatching caller batch position backoff =>
          match batch.sinks[position]? with
          | none => none
          | some handle =>
              let called := state.emit [.called position batch outcome]
              match dispatchWithRetry settings handle.required backoff
                  outcome with
              | .completed =>
                  some ((called.emit [.completed position batch]).nextSink
                    settings caller batch (position + 1))
              | .retry _ backoff =>
                  some { called with
                    phase := .dispatching caller batch position backoff }
              | .gaveUp =>
                  some ((called.emit [.gaveUp position batch]).dispatchFailed
                    settings caller)
      | _ => none
  | .confirm source =>
      match state.phase with
      | .notifying caller batch pending =>
          match pending.find? fun entry => entry.1 = source with
          | none => none
          | some entry =>
              let confirmed := state.emit [.confirmed entry.1 entry.2]
              let pending := pending.erase entry
              some (if pending.isEmpty then confirmed.resume caller batch
                else { confirmed with
                  phase := .notifying caller batch pending })
      | _ => none
  | .tryDequeue =>
      match state.phase, state.queue with
      | .draining batch, job :: rest =>
          let taken :=
            { state.emit [.dequeued job] with queue := rest }
          let sinks :=
            if batch.sinks.isEmpty then job.sinks else batch.sinks
          let batch := { batch.push job with sinks := sinks }
          some (if settings.maxBatchSize ≤ batch.jobs.length then
              taken.dispatch settings .drainLoop batch
            else { taken with phase := .draining batch })
      | .draining batch, [] =>
          some (if batch.jobs.isEmpty then { state with phase := .exited }
            else state.dispatch settings .drainEnd batch)
      | _, _ => none

end Dispatcher
end Walkrie
