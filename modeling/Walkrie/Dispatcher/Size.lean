import Walkrie.Dispatcher.Trace

/-!
# The size of a batch

The main loop stops filling a batch, and the drain hands one over, when the
maximum is reached.  A batch holds at least the job it was opened with, so a
maximum of zero is as good as one.  Like the order of the confirmations this
needs no assumption about the jobs that are posted.
-/

namespace Walkrie
namespace Dispatcher

variable {σ ρ : Type}
variable {settings : Settings}
variable {state next : State σ ρ} {label : Label σ ρ} {batch : Batch σ}
variable {caller : Caller} {position : Nat}

/-- The batches that were dispatched are not too large. -/
def Bounded (settings : Settings) (trace : List (Output σ ρ)) : Prop :=
  ∀ batch, Output.dispatched batch ∈ trace →
    batch.jobs.length ≤ max 1 settings.maxBatchSize

/-- Nor is the batch that is being filled. -/
structure Sized (settings : Settings) (state : State σ ρ) : Prop where
  trace : Bounded settings state.trace
  phase :
    match state.phase with
    | .collecting batch _ => batch.jobs.length ≤ max 1 settings.maxBatchSize
    | .draining batch => batch.jobs.length < max 1 settings.maxBatchSize
    | _ => True

/-- Outputs that dispatch nothing. -/
theorem Bounded.append
    {trace outputs : List (Output σ ρ)}
    (bounded : Bounded settings trace)
    (undispatched : ∀ batch, Output.dispatched batch ∉ outputs) :
    Bounded settings (trace ++ outputs) := by
  intro batch member
  rcases List.mem_append.mp member with before | now
  · exact bounded batch before
  · exact absurd now (undispatched batch)

theorem length_newBatch_lt
    (sinks : List (SinkHandle σ)) :
    (state.newBatch sinks).jobs.length < max 1 settings.maxBatchSize :=
  lt_max_of_lt_left Nat.zero_lt_one

theorem leaveLoop_sized
    (bounded : Bounded settings state.trace) :
    Sized settings state.leaveLoop := by
  refine ⟨bounded, ?_⟩
  unfold State.leaveLoop
  cases state.fatalTriggered with
  | true => trivial
  | false => exact length_newBatch_lt _

theorem resume_sized
    (bounded : Bounded settings state.trace) :
    Sized settings (state.resume caller batch) := by
  cases caller with
  | processJobs => exact ⟨bounded, trivial⟩
  | drainLoop => exact ⟨bounded, length_newBatch_lt _⟩
  | drainEnd => exact ⟨bounded, trivial⟩

theorem nextSink_sized
    (bounded : Bounded settings state.trace) :
    Sized settings (state.nextSink settings caller batch position) := by
  unfold State.nextSink State.notifyConfirmed
  split
  · exact ⟨bounded, trivial⟩
  · split
    · exact resume_sized bounded
    · exact ⟨bounded, trivial⟩

theorem dispatch_sized
    (bounded : Bounded settings state.trace)
    (small : batch.jobs.length ≤ max 1 settings.maxBatchSize) :
    Sized settings (state.dispatch settings caller batch) := by
  refine nextSink_sized fun other member => ?_
  rcases List.mem_append.mp member with before | now
  · exact bounded other before
  · cases List.mem_singleton.mp now
    exact small

theorem dispatchFailed_sized
    (bounded : Bounded settings state.trace) :
    Sized settings (state.dispatchFailed settings caller) := by
  unfold State.dispatchFailed
  split
  all_goals
    have reported : Bounded settings (state.emit [.fatal]).trace :=
      bounded.append (by simp)
    cases caller
    · exact leaveLoop_sized (by assumption)
    · exact ⟨by assumption, trivial⟩
    · exact ⟨by assumption, trivial⟩

theorem step_sized
    (sized : Sized settings state)
    (taken : step settings state label = some next) :
    Sized settings next := by
  obtain ⟨bounded, filled⟩ := sized
  cases moves_of_step taken with
  | post job running => exact ⟨bounded.append (by simp), filled⟩
  | stop => exact ⟨bounded, filled⟩
  | keepRunning phase => exact ⟨bounded, trivial⟩
  | leaveLoop phase stopped => exact leaveLoop_sized bounded
  | timeOut now phase => exact ⟨bounded, trivial⟩
  | openBatch now job rest phase queue =>
      exact ⟨bounded.append (by simp), le_max_left _ _⟩
  | fillBatch now batch deadline job rest phase room queue =>
      refine ⟨bounded.append (by simp), ?_⟩
      simp only [Batch.push, List.length_append, List.length_singleton]
      omega
  | closeBatch now arrived batch deadline phase =>
      simp only [phase] at filled
      exact dispatch_sized bounded filled
  | complete =>
      exact nextSink_sized ((bounded.append (by simp)).append (by simp))
  | retry => exact ⟨bounded.append (by simp), trivial⟩
  | giveUp =>
      exact dispatchFailed_sized
        ((bounded.append (by simp)).append (by simp))
  | confirmLast => exact resume_sized (bounded.append (by simp))
  | confirm => exact ⟨bounded.append (by simp), trivial⟩
  | drain batch job rest phase queue room =>
      refine ⟨bounded.append (by simp), ?_⟩
      simp only [Batch.push, List.length_append, List.length_singleton]
      omega
  | drainFull batch job rest phase queue full =>
      simp only [phase] at filled
      refine dispatch_sized (bounded.append (by simp)) ?_
      simp only [Batch.push, List.length_append, List.length_singleton]
      omega
  | drainEmpty batch phase queue empty => exact ⟨bounded, trivial⟩
  | drainRest batch phase queue nonempty =>
      simp only [phase] at filled
      exact dispatch_sized bounded filled.le

/-- In every run, a batch that is dispatched is not larger than the maximum. -/
theorem reachable_bounded
    {permitted : State σ ρ → Label σ ρ → Prop}
    (reachable : Transition.Reachable (step settings) permitted {} state) :
    Bounded settings state.trace :=
  (reachable.invariant (Sized settings)
    ⟨fun _ impossible => absurd impossible List.not_mem_nil, trivial⟩
    fun _ _ _ sized _ taken => step_sized sized taken).trace

end Dispatcher
end Walkrie
