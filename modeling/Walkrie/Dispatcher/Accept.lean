import Walkrie.Dispatcher.Trace

/-!
# A batch is confirmed only after every required sink returned

Unlike the delivery order, this needs neither a shared sink list nor reported
stalls: it follows the loop over the sinks of one batch.
-/

namespace Walkrie
namespace Dispatcher

variable {σ ρ : Type}
variable {settings : Settings}
variable {state next : State σ ρ} {label : Label σ ρ} {batch : Batch σ}
variable {caller : Caller} {position : Nat}

/-- Every required sink before `position` has returned for the batch. -/
def AcceptedUpTo
    (batch : Batch σ)
    (position : Nat)
    (trace : List (Output σ ρ)) : Prop :=
  ∀ index < position, ∀ handle,
    batch.sinks[index]? = some handle → handle.required = true →
      ∃ report, Output.called index batch (.returned report) ∈ trace

/-- The batch being dispatched has been accepted as far as the loop over the
sinks has come, and the batch being confirmed by all of them. -/
def Accepted (state : State σ ρ) : Prop :=
  match state.phase with
  | .dispatching _ batch position _ =>
      AcceptedUpTo batch position state.trace
  | .notifying _ batch _ =>
      AcceptedUpTo batch batch.sinks.length state.trace
  | _ => True

theorem AcceptedUpTo.append
    {trace : List (Output σ ρ)}
    (accepted : AcceptedUpTo batch position trace)
    (later : List (Output σ ρ)) :
    AcceptedUpTo batch position (trace ++ later) := by
  intro index bound handle present required
  obtain ⟨report, member⟩ := accepted index bound handle present required
  exact ⟨report, List.mem_append_left later member⟩

/-- A longer trace at the same program position. -/
theorem Accepted.extend
    (accepted : Accepted state)
    {outputs : List (Output σ ρ)}
    (phase : next.phase = state.phase)
    (trace : next.trace = state.trace ++ outputs) :
    Accepted next := by
  unfold Accepted at accepted ⊢
  rw [phase, trace]
  split
  · rename_i position
    simp only [position] at accepted
    exact accepted.append outputs
  · rename_i position
    simp only [position] at accepted
    exact accepted.append outputs
  · trivial

theorem resume_accepted : Accepted (state.resume caller batch) := by
  cases caller <;> trivial

theorem leaveLoop_accepted : Accepted state.leaveLoop := by
  simp only [Accepted, State.leaveLoop]
  cases state.fatalTriggered <;> trivial

theorem notifyConfirmed_accepted
    (accepted : AcceptedUpTo batch batch.sinks.length state.trace) :
    Accepted (state.notifyConfirmed settings caller batch) := by
  unfold State.notifyConfirmed
  split
  · exact resume_accepted
  · exact accepted

theorem nextSink_accepted
    (accepted : AcceptedUpTo batch position state.trace) :
    Accepted (state.nextSink settings caller batch position) := by
  unfold State.nextSink
  split <;> rename_i more
  · exact accepted
  · exact notifyConfirmed_accepted fun index bound =>
      accepted index (Nat.lt_of_lt_of_le bound (Nat.le_of_not_lt more))

theorem dispatch_accepted :
    Accepted (state.dispatch settings caller batch) :=
  nextSink_accepted fun _ impossible => absurd impossible (Nat.not_lt_zero _)

theorem dispatchFailed_accepted :
    Accepted (state.dispatchFailed settings caller) := by
  cases caller with
  | processJobs => exact leaveLoop_accepted
  | drainLoop => trivial
  | drainEnd => trivial

/-- The turn of one sink is over: it has returned, or it is not required. -/
theorem AcceptedUpTo.completed
    {trace : List (Output σ ρ)}
    {outcome : Attempt ρ}
    {backoff : Nat}
    {handle : SinkHandle σ}
    (accepted : AcceptedUpTo batch position trace)
    (present : batch.sinks[position]? = some handle)
    (verdict : dispatchWithRetry settings handle.required backoff outcome =
      .completed) :
    AcceptedUpTo batch (position + 1)
      (trace ++ [.called position batch outcome]) := by
  intro index bound other found required
  by_cases current : index = position
  · subst current
    cases present.symm.trans found
    exact mem_of_completed verdict required index batch trace
  · exact accepted.append _ index (by omega) other found required

theorem step_accepted
    (accepted : Accepted state)
    (taken : step settings state label = some next) :
    Accepted next := by
  cases moves_of_step taken with
  | post job running => exact accepted.extend rfl rfl
  | stop => exact accepted.extend rfl (List.append_nil _).symm
  | leaveLoop phase stopped => exact leaveLoop_accepted
  | closeBatch now arrived batch deadline phase => exact dispatch_accepted
  | complete outcome caller batch position backoff handle phase present
      verdict =>
      simp only [Accepted, phase] at accepted
      exact nextSink_accepted ((accepted.completed present verdict).append _)
  | retry outcome caller batch position backoff later handle phase present =>
      simp only [Accepted, phase] at accepted
      exact accepted.append [.called position batch outcome]
  | giveUp => exact dispatchFailed_accepted
  | confirmLast => exact resume_accepted
  | confirm caller batch pending entry phase member =>
      simp only [Accepted, phase] at accepted
      exact accepted.append [.confirmed entry.1 entry.2]
  | drainFull batch job rest phase queue full => exact dispatch_accepted
  | drainRest batch phase queue nonempty => exact dispatch_accepted
  | keepRunning | timeOut | openBatch | fillBatch | drain | drainEmpty =>
      trivial

/-- In every run, a batch reaches `notify_confirmed` only after every required
sink of it has returned. -/
theorem reachable_accepted
    {permitted : State σ ρ → Label σ ρ → Prop}
    (reachable : Transition.Reachable (step settings) permitted {} state) :
    Accepted state :=
  reachable.invariant Accepted trivial
    fun _ _ _ accepted _ taken => step_accepted accepted taken

end Dispatcher
end Walkrie
