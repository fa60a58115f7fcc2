import Walkrie.Dispatcher.Machine

/-!
# The retry loop against the clock

The dispatcher's machine takes the elapsed time of every failed attempt from
outside.  Here `dispatch_with_retry` runs as a loop with a clock: a call of
the sink takes some time, and a sleep lasts at least as long as it was asked
to.  The loop returns within the ceiling, up to one late wake-up and one
call, its pauses double until the last one is cut off, and its attempts are
the ones the machine makes.
-/

namespace Walkrie
namespace Dispatcher
namespace Retry

variable {σ ρ : Type}

/-- One call of a sink and the sleep after it, in nanoseconds. -/
structure Call (ρ : Type) where
  /-- From the start of the call to the reading of the clock. -/
  took : Nat
  /-- What the sink returned, unless it threw. -/
  answer : Option ρ
  /-- How much longer than asked the sleep lasts. -/
  overslept : Nat
  deriving DecidableEq, Repr

/-- How the call ends, given the time since the first one. -/
def Call.attempt (call : Call ρ) (elapsed : Nat) : Attempt ρ :=
  match call.answer with
  | some report => .returned report
  | none => .threw elapsed

structure Run (ρ : Type) where
  /-- The answer of `dispatch_with_retry`, if it has returned. -/
  ending : Option Bool
  /-- Nanoseconds since the first call. -/
  elapsed : Nat
  /-- Milliseconds asked of each sleep. -/
  pauses : List Nat
  attempts : List (Attempt ρ)

/-- The loop of `dispatch_with_retry` on the calls to come, with a backoff that
does not overflow. -/
def retry (settings : Settings) (required : Bool) :
    Nat → Nat → List (Call ρ) → Run ρ
  | elapsed, _, [] => ⟨none, elapsed, [], []⟩
  | elapsed, backoff, call :: calls =>
      let now := elapsed + call.took
      let attempt := call.attempt now
      match dispatchWithRetry settings required backoff attempt with
      | .completed => ⟨some true, now, [], [attempt]⟩
      | .gaveUp => ⟨some false, now, [], [attempt]⟩
      | .retry sleepFor backoff =>
          let rest := retry settings required
            (now + sleepFor * nanosPerMilli + call.overslept) backoff calls
          { rest with
            pauses := sleepFor :: rest.pauses
            attempts := attempt :: rest.attempts }

/-- The ceiling in nanoseconds. -/
def ceiling (settings : Settings) : Nat :=
  settings.requiredRetryCeiling * nanosPerMilli

/-- Everything one attempt can lead to. -/
theorem verdict_cases
    (settings : Settings)
    (required : Bool)
    (backoff now : Nat)
    (call : Call ρ) :
    (dispatchWithRetry settings required backoff (call.attempt now) =
        .completed ∧ (call.answer.isSome = true ∨ required = false)) ∨
      (dispatchWithRetry settings required backoff (call.attempt now) =
        .gaveUp ∧ required = true ∧ call.answer = none ∧
          ceiling settings ≤ now) ∨
      (dispatchWithRetry settings required backoff (call.attempt now) =
        .retry (min ((ceiling settings - now) / nanosPerMilli) backoff)
          (backoff * 2) ∧
        required = true ∧ call.answer = none ∧ now < ceiling settings) := by
  unfold Call.attempt ceiling
  cases call.answer with
  | some report => exact .inl ⟨rfl, .inl rfl⟩
  | none =>
      cases required with
      | false => exact .inl ⟨rfl, .inr rfl⟩
      | true =>
          by_cases late :
              settings.requiredRetryCeiling * nanosPerMilli ≤ now
          · refine .inr (.inl ⟨?_, rfl, rfl, late⟩)
            simp [dispatchWithRetry, late]
          · refine .inr (.inr ⟨?_, rfl, rfl, Nat.lt_of_not_le late⟩)
            simp [dispatchWithRetry, late]

variable {settings : Settings} {required : Bool}

/-! ## Time -/

/-- The sleep after a failure ends within the ceiling, as asked. -/
theorem pause_le_ceiling
    {now : Nat}
    (backoff : Nat)
    (early : now < ceiling settings) :
    now + min ((ceiling settings - now) / nanosPerMilli) backoff *
      nanosPerMilli ≤ ceiling settings := by
  have asked : min ((ceiling settings - now) / nanosPerMilli) backoff *
      nanosPerMilli ≤ ceiling settings - now :=
    (Nat.mul_le_mul_right _ (min_le_left _ _)).trans
      (Nat.div_mul_le_self _ _)
  omega

/-- The loop head is passed no later than one late wake-up after the
ceiling. -/
theorem elapsed_le
    (longest late : Nat)
    (calls : List (Call ρ))
    (elapsed backoff : Nat)
    (bounded : ∀ call ∈ calls, call.took ≤ longest ∧ call.overslept ≤ late)
    (before : elapsed ≤ ceiling settings + late) :
    (retry settings required elapsed backoff calls).elapsed ≤
      ceiling settings + late + longest := by
  induction calls generalizing elapsed backoff with
  | nil => exact before.trans (Nat.le_add_right _ _)
  | cons call calls inductionHypothesis =>
      obtain ⟨⟨took, overslept⟩, rest⟩ := List.forall_mem_cons.mp bounded
      have now : elapsed + call.took ≤ ceiling settings + late + longest := by
        omega
      rcases verdict_cases settings required backoff (elapsed + call.took)
        call with ⟨verdict, -⟩ | ⟨verdict, -⟩ | ⟨verdict, -, -, early⟩
      · simpa [retry, verdict] using now
      · simpa [retry, verdict] using now
      · simp only [retry, verdict]
        have asked := pause_le_ceiling backoff early
        exact inductionHypothesis _ _ rest (by omega)

/-- The loop answers false only for a required sink, at the ceiling or after
it, and after a last call that failed. -/
theorem late_of_gaveUp
    (calls : List (Call ρ))
    (elapsed backoff : Nat)
    (ended : (retry settings required elapsed backoff calls).ending =
      some false) :
    required = true ∧
      ceiling settings ≤
        (retry settings required elapsed backoff calls).elapsed := by
  induction calls generalizing elapsed backoff with
  | nil => simp [retry] at ended
  | cons call calls inductionHypothesis =>
      rcases verdict_cases settings required backoff (elapsed + call.took)
        call with ⟨verdict, -⟩ | ⟨verdict, must, -, late⟩ | ⟨verdict, -⟩
      · simp [retry, verdict] at ended
      · exact ⟨must, by simpa [retry, verdict] using late⟩
      · simp only [retry, verdict] at ended ⊢
        exact inductionHypothesis _ _ ended

/-- Every failed call moves the clock towards the ceiling. -/
theorem length_le_of_running
    (calls : List (Call ρ))
    (elapsed backoff : Nat)
    (positive : ∀ call ∈ calls, 0 < call.took)
    (running : (retry settings required elapsed backoff calls).ending =
      none) :
    calls = [] ∨ elapsed + calls.length ≤ ceiling settings := by
  induction calls generalizing elapsed backoff with
  | nil => exact .inl rfl
  | cons call calls inductionHypothesis =>
      obtain ⟨took, rest⟩ := List.forall_mem_cons.mp positive
      right
      rcases verdict_cases settings required backoff (elapsed + call.took)
        call with ⟨verdict, -⟩ | ⟨verdict, -⟩ | ⟨verdict, -, -, early⟩
      · simp [retry, verdict] at running
      · simp [retry, verdict] at running
      · simp only [retry, verdict] at running
        rcases inductionHypothesis _ _ rest running with rfl | fits
        · simp only [List.length_cons, List.length_nil]
          omega
        · simp only [List.length_cons]
          omega

/-- With more calls than nanoseconds the loop has returned. -/
theorem exists_ending
    (settings : Settings)
    (required : Bool)
    (calls : List (Call ρ))
    (backoff : Nat)
    (positive : ∀ call ∈ calls, 0 < call.took)
    (enough : ceiling settings < calls.length) :
    ∃ value, (retry settings required 0 backoff calls).ending =
      some value := by
  cases ended : (retry settings required 0 backoff calls).ending with
  | some value => exact ⟨value, rfl⟩
  | none =>
      rcases length_le_of_running calls 0 backoff positive ended
        with rfl | fits
      · simp at enough
      · omega

/-- Whatever the sink does and however late the thread wakes up: if a call
takes at least a nanosecond, `dispatch_with_retry` returns; it returns within
the ceiling, up to one late wake-up and one call; and it gives up only for a
required sink and not before the ceiling. -/
theorem returns_within
    (longest late : Nat)
    (calls : List (Call ρ))
    (bounded : ∀ call ∈ calls,
      0 < call.took ∧ call.took ≤ longest ∧ call.overslept ≤ late)
    (enough : ceiling settings < calls.length) :
    ∃ value,
      (retry settings required 0 settings.requiredRetryInitialBackoff
        calls).ending = some value ∧
      (retry settings required 0 settings.requiredRetryInitialBackoff
        calls).elapsed ≤ ceiling settings + late + longest ∧
      (value = false → required = true ∧ ceiling settings ≤
        (retry settings required 0 settings.requiredRetryInitialBackoff
          calls).elapsed) := by
  have inTime : (retry settings required 0
      settings.requiredRetryInitialBackoff calls).elapsed ≤
        ceiling settings + late + longest :=
    elapsed_le longest late calls 0 _
      (fun call member => (bounded call member).2) (Nat.zero_le _)
  obtain ⟨value, ended⟩ := exists_ending settings required calls
    settings.requiredRetryInitialBackoff
    (fun call member => (bounded call member).1) enough
  refine ⟨value, ended, inTime, ?_⟩
  rintro rfl
  exact late_of_gaveUp calls 0 _ ended

/-- A sink that always throws, called more often than the default ceiling
has nanoseconds. -/
def sampleOutage : List (Call Unit) :=
  List.replicate (ceiling {} + 1) ⟨7, none, 3⟩

theorem sampleOutage_enough : ceiling {} < sampleOutage.length := by
  rw [sampleOutage, List.length_replicate]
  exact Nat.lt_succ_self _

theorem sampleOutage_throwing :
    ∀ call ∈ sampleOutage, call.answer = none ∧ 0 < call.took ∧
      call.took ≤ 7 ∧ call.overslept ≤ 3 := by
  intro call member
  rw [List.eq_of_mem_replicate member]
  decide

theorem returns_sampleOutage :
    ceiling {} < sampleOutage.length ∧
      ∃ value, (retry {} true 0 500 sampleOutage).ending = some value ∧
        (retry {} true 0 500 sampleOutage).elapsed ≤ 60000000010 := by
  obtain ⟨value, ended, inTime, -⟩ := returns_within 7 3 sampleOutage
    (fun call member => (sampleOutage_throwing call member).2)
    sampleOutage_enough
  exact ⟨sampleOutage_enough, value, ended, inTime⟩

/-! ## Pauses -/

/-- In the last millisecond before the ceiling the loop does not pause. -/
theorem exists_idle
    (settings : Settings)
    (required : Bool)
    (calls : List (Call ρ))
    (elapsed backoff : Nat)
    (last : ceiling settings < elapsed + nanosPerMilli) :
    ∃ idle, (retry settings required elapsed backoff calls).pauses =
      List.replicate idle 0 := by
  induction calls generalizing elapsed backoff with
  | nil => exact ⟨0, rfl⟩
  | cons call calls inductionHypothesis =>
      rcases verdict_cases settings required backoff (elapsed + call.took)
        call with ⟨verdict, -⟩ | ⟨verdict, -⟩ | ⟨verdict, -, -, early⟩
      · exact ⟨0, by simp [retry, verdict]⟩
      · exact ⟨0, by simp [retry, verdict]⟩
      · have exhausted : (ceiling settings - (elapsed + call.took)) /
            nanosPerMilli = 0 := Nat.div_eq_of_lt (by omega)
        rw [exhausted, Nat.zero_min] at verdict
        obtain ⟨idle, rest⟩ := inductionHypothesis
          (elapsed + call.took + 0 * nanosPerMilli + call.overslept)
          (backoff * 2) (by omega)
        exact ⟨idle + 1, by simp only [retry, verdict, rest,
          List.replicate_succ]⟩

/-- A cut-off pause ends in the last millisecond. -/
theorem last_of_cut (settings : Settings) (now : Nat) :
    ceiling settings <
      now + (ceiling settings - now) / nanosPerMilli * nanosPerMilli +
        nanosPerMilli := by
  have rounded : ceiling settings - now <
      (ceiling settings - now) / nanosPerMilli * nanosPerMilli +
        nanosPerMilli :=
    Nat.lt_div_mul_add (by decide)
  omega

/-- One pause and the doubled ones after it. -/
theorem doubled_sum (backoff whole : Nat) :
    backoff + backoff * 2 * (2 ^ whole - 1) =
      backoff * (2 ^ (whole + 1) - 1) := by
  obtain ⟨less, more⟩ : ∃ less, 2 ^ whole = less + 1 :=
    Nat.exists_eq_succ_of_ne_zero (Nat.two_pow_pos whole).ne'
  rw [Nat.pow_succ, more, Nat.add_sub_cancel,
    show (less + 1) * 2 - 1 = 1 + 2 * less by omega]
  ring

/-- The pauses double from the first backoff as long as they fit; then one is
cut off at the ceiling, and the calls after it follow without a pause. -/
theorem pauses_shape
    (settings : Settings)
    (required : Bool)
    (calls : List (Call ρ))
    (elapsed backoff : Nat)
    (before : elapsed ≤ ceiling settings) :
    ∃ whole cut idle,
      (retry settings required elapsed backoff calls).pauses =
        (List.range whole).map (fun doubled => backoff * 2 ^ doubled) ++
          cut ++ List.replicate idle 0 ∧
      cut.length ≤ 1 ∧
      elapsed + backoff * (2 ^ whole - 1) * nanosPerMilli ≤
        ceiling settings := by
  induction calls generalizing elapsed backoff with
  | nil => exact ⟨0, [], 0, rfl, by simp, by simpa using before⟩
  | cons call calls inductionHypothesis =>
      rcases verdict_cases settings required backoff (elapsed + call.took)
        call with ⟨verdict, -⟩ | ⟨verdict, -⟩ | ⟨verdict, -, -, early⟩
      · exact ⟨0, [], 0, by simp [retry, verdict], by simp, by simpa⟩
      · exact ⟨0, [], 0, by simp [retry, verdict], by simp, by simpa⟩
      · simp only [retry, verdict]
        have asked := pause_le_ceiling backoff early
        by_cases fits : backoff ≤
            (ceiling settings - (elapsed + call.took)) / nanosPerMilli
        · rw [min_eq_right fits] at asked ⊢
          by_cases awake : elapsed + call.took + backoff * nanosPerMilli +
              call.overslept ≤ ceiling settings
          · obtain ⟨whole, cut, idle, shape, single, sum⟩ :=
              inductionHypothesis _ (backoff * 2) awake
            refine ⟨whole + 1, cut, idle, ?_, single, ?_⟩
            · rw [shape, List.range_succ_eq_map]
              simp [Function.comp_def, Nat.pow_succ', Nat.mul_assoc]
            · rw [← doubled_sum, Nat.add_mul]
              omega
          · -- The thread slept past the ceiling.
            obtain ⟨idle, rest⟩ := exists_idle settings required calls
              (elapsed + call.took + backoff * nanosPerMilli +
                call.overslept) (backoff * 2) (by omega)
            have paused :
                elapsed + backoff * nanosPerMilli ≤ ceiling settings := by
              omega
            refine ⟨1, [], idle, ?_, by simp, by simpa using paused⟩
            rw [rest]
            simp
        · have shorter : (ceiling settings - (elapsed + call.took)) /
              nanosPerMilli ≤ backoff := Nat.le_of_not_le fits
          have last := last_of_cut settings (elapsed + call.took)
          rw [min_eq_left shorter]
          obtain ⟨idle, rest⟩ := exists_idle settings required calls
            (elapsed + call.took +
              (ceiling settings - (elapsed + call.took)) / nanosPerMilli *
                nanosPerMilli + call.overslept) (backoff * 2) (by omega)
          refine ⟨0, [(ceiling settings - (elapsed + call.took)) /
            nanosPerMilli], idle, ?_, by simp, by simpa using before⟩
          rw [rest]
          simp

/-- The backoff is a signed 64-bit number of milliseconds, doubled after every
failed call.  With the default settings it overflows only if at least 48
calls failed one after the other without any pause. -/
theorem idle_of_overflow
    (calls : List (Call ρ))
    (initial : settings.requiredRetryInitialBackoff = 500)
    (sixtySeconds : settings.requiredRetryCeiling = 60000)
    (overflow : 2 ^ 63 ≤ settings.requiredRetryInitialBackoff *
      2 ^ (retry settings required 0 settings.requiredRetryInitialBackoff
        calls).pauses.length) :
    48 ≤ (retry settings required 0 settings.requiredRetryInitialBackoff
      calls).pauses.count 0 := by
  obtain ⟨whole, cut, idle, shape, single, sum⟩ :=
    pauses_shape settings required calls 0
      settings.requiredRetryInitialBackoff (Nat.zero_le (ceiling settings))
  have few : whole ≤ 6 := by
    by_contra! more
    have doubled : 2 ^ 7 ≤ 2 ^ whole :=
      Nat.pow_le_pow_right (by decide) more
    rw [initial, ceiling, sixtySeconds, nanosPerMilli] at sum
    omega
  have many : 55 ≤ (retry settings required 0
      settings.requiredRetryInitialBackoff calls).pauses.length := by
    by_contra! less
    have small : 2 ^ (retry settings required 0
        settings.requiredRetryInitialBackoff calls).pauses.length ≤ 2 ^ 54 :=
      Nat.pow_le_pow_right (by decide) (by omega)
    rw [initial] at overflow small
    omega
  rw [shape] at many ⊢
  simp only [List.length_append, List.length_map, List.length_range,
    List.length_replicate] at many
  rw [List.count_append, List.count_replicate_self]
  omega

/-- Calls that fail at once: the sixth pause is the last whole one, the
seventh is cut off, and the others follow without a pause. -/
def sampleRefusals : List (Call Unit) := List.replicate 55 ⟨1, none, 0⟩

theorem idle_sampleRefusals :
    (retry {} true 0 500 sampleRefusals).pauses.take 8 =
        [500, 1000, 2000, 4000, 8000, 16000, 28499, 0] ∧
      48 ≤ (retry {} true 0 500 sampleRefusals).pauses.count 0 :=
  ⟨by decide +kernel,
    idle_of_overflow sampleRefusals rfl rfl (by decide +kernel)⟩

/-! ## The machine makes the attempts of the loop -/

variable {settings : Settings}

theorem nextSink_withPhase
    (caller : Caller)
    (batch : Batch σ)
    (position : Nat)
    (state : State σ ρ)
    (phase : Phase σ) :
    State.nextSink settings caller batch position
        { state with phase := phase } =
      state.nextSink settings caller batch position := by
  unfold State.nextSink State.notifyConfirmed State.resume
  cases caller <;> rfl

theorem dispatchFailed_withPhase
    (caller : Caller)
    (state : State σ ρ)
    (phase : Phase σ) :
    State.dispatchFailed settings caller { state with phase := phase } =
      state.dispatchFailed settings caller := by
  obtain ⟨queue, running, fatalTriggered, earlier, trace⟩ := state
  unfold State.dispatchFailed State.leaveLoop
  cases caller <;> cases fatalTriggered <;> cases settings.onFatal <;> rfl

/-- Where the loop over the sinks stands after a run of the retry loop. -/
def Run.conclude
    (run : Run ρ)
    (settings : Settings)
    (caller : Caller)
    (batch : Batch σ)
    (position backoff : Nat)
    (state : State σ ρ) : State σ ρ :=
  let called := state.emit (run.attempts.map (.called position batch))
  match run.ending with
  | none =>
      { called with
        phase := .dispatching caller batch position
          (backoff * 2 ^ run.attempts.length) }
  | some true =>
      (called.emit [.completed position batch]).nextSink settings caller batch
        (position + 1)
  | some false =>
      (called.emit [.gaveUp position batch]).dispatchFailed settings caller

/-- A failed attempt in front of a run. -/
theorem conclude_cons
    (run : Run ρ)
    (caller : Caller)
    (batch : Batch σ)
    (position backoff : Nat)
    (state : State σ ρ)
    (attempt : Attempt ρ)
    (pauses : List Nat)
    (phase : Phase σ) :
    run.conclude settings caller batch position (backoff * 2)
        { state.emit [.called position batch attempt] with phase := phase } =
      Run.conclude
        { run with pauses := pauses, attempts := attempt :: run.attempts }
        settings caller batch position backoff state := by
  obtain ⟨ending, elapsed, earlierPauses, attempts⟩ := run
  have emitted : ∀ outputs : List (Output σ ρ),
      State.emit { state.emit [.called position batch attempt] with
          phase := phase } outputs =
        { state.emit (.called position batch attempt :: outputs) with
          phase := phase } := by
    intro outputs
    simp [State.emit]
  cases ending with
  | none =>
      simp only [Run.conclude, emitted, List.map_cons, List.length_cons,
        Nat.pow_succ', Nat.mul_assoc]
  | some value =>
      cases value with
      | true =>
          simp only [Run.conclude, emitted, List.map_cons]
          exact nextSink_withPhase caller batch (position + 1)
            ((state.emit (.called position batch attempt ::
              attempts.map (.called position batch))).emit
                [.completed position batch]) phase
      | false =>
          simp only [Run.conclude, emitted, List.map_cons]
          exact dispatchFailed_withPhase caller
            ((state.emit (.called position batch attempt ::
              attempts.map (.called position batch))).emit
                [.gaveUp position batch]) phase

/-- The dispatcher in the retry loop of a sink takes exactly the attempts of
the timed loop and goes on as that loop ends. -/
theorem run_attempts
    (settings : Settings)
    {caller : Caller}
    {batch : Batch σ}
    {position : Nat}
    {handle : SinkHandle σ}
    (found : batch.sinks[position]? = some handle)
    (calls : List (Call ρ))
    (elapsed backoff : Nat)
    (state : State σ ρ)
    (retrying : state.phase = .dispatching caller batch position backoff) :
    Transition.run (step settings) state
        ((retry settings handle.required elapsed backoff
          calls).attempts.map .attempt) =
      some ((retry settings handle.required elapsed backoff calls).conclude
        settings caller batch position backoff state) := by
  induction calls generalizing elapsed backoff state with
  | nil =>
      obtain ⟨⟩ := state
      simp_all [retry, Run.conclude, Transition.run, State.emit]
  | cons call calls inductionHypothesis =>
      rcases verdict_cases settings handle.required backoff
        (elapsed + call.took) call with
          ⟨verdict, -⟩ | ⟨verdict, -⟩ | ⟨verdict, -⟩
      · simp [retry, verdict, Run.conclude, Transition.run, step, retrying,
          found]
      · simp [retry, verdict, Run.conclude, Transition.run, step, retrying,
          found]
      · simp only [retry, verdict, List.map_cons, Transition.run, step,
          retrying, found]
        rw [inductionHypothesis _ _ _ rfl]
        exact congrArg some (conclude_cons _ caller batch position backoff
          state _ _ _)

/-- The calls all throw. -/
theorem gaveUp_of_throwing
    (calls : List (Call ρ))
    (elapsed backoff : Nat)
    (throwing : ∀ call ∈ calls, call.answer = none)
    (value : Bool)
    (ended : (retry settings true elapsed backoff calls).ending =
      some value) :
    value = false := by
  induction calls generalizing elapsed backoff with
  | nil => simp [retry] at ended
  | cons call calls inductionHypothesis =>
      obtain ⟨threw, rest⟩ := List.forall_mem_cons.mp throwing
      rcases verdict_cases settings true backoff (elapsed + call.took)
        call with ⟨-, answered | optional⟩ | ⟨verdict, -⟩ | ⟨verdict, -⟩
      · simp [threw] at answered
      · cases optional
      · simpa [retry, verdict] using ended.symm
      · simp only [retry, verdict] at ended
        exact inductionHypothesis _ _ rest ended

/-- The dispatcher does not wait for ever on a required sink that keeps
throwing: after the attempts of the timed loop, which end at the ceiling up
to one late wake-up and one call, it gives the sink up. -/
theorem stalls_of_throwing
    {caller : Caller}
    {batch : Batch σ}
    {position : Nat}
    {handle : SinkHandle σ}
    (longest late : Nat)
    (calls : List (Call ρ))
    (state : State σ ρ)
    (found : batch.sinks[position]? = some handle)
    (must : handle.required = true)
    (entered : state.phase = .dispatching caller batch position
      settings.requiredRetryInitialBackoff)
    (throwing : ∀ call ∈ calls, call.answer = none ∧ 0 < call.took ∧
      call.took ≤ longest ∧ call.overslept ≤ late)
    (enough : ceiling settings < calls.length) :
    ∃ run, run = retry settings true 0
          settings.requiredRetryInitialBackoff calls ∧
        ceiling settings ≤ run.elapsed ∧
        run.elapsed ≤ ceiling settings + late + longest ∧
        Transition.run (step settings) state
          (run.attempts.map .attempt) =
            some (((state.emit (run.attempts.map
              (.called position batch))).emit
                [.gaveUp position batch]).dispatchFailed settings caller) := by
  obtain ⟨value, ended⟩ := exists_ending settings true calls
    settings.requiredRetryInitialBackoff
    (fun call member => (throwing call member).2.1) enough
  obtain rfl : value = false :=
    gaveUp_of_throwing calls 0 settings.requiredRetryInitialBackoff
      (fun call member => (throwing call member).1) value ended
  refine ⟨_, rfl, (late_of_gaveUp calls 0 _ ended).2, ?_, ?_⟩
  · exact elapsed_le longest late calls 0 _
      (fun call member => (throwing call member).2.2) (Nat.zero_le _)
  · have simulated := run_attempts settings found calls 0
      settings.requiredRetryInitialBackoff state entered
    rw [must] at simulated
    rw [simulated, Run.conclude, ended]

/-- One required sink, about to be called for the first time. -/
def sampleDispatching : State Unit Unit where
  phase := .dispatching .processJobs ⟨0, [], [⟨(), true⟩]⟩ 0 500

theorem stalls_sampleOutage :
    ∃ run : Run Unit, 60000000000 ≤ run.elapsed ∧
      run.elapsed ≤ 60000000010 ∧
      (Transition.run (step {}) sampleDispatching
        (run.attempts.map .attempt)).isSome = true := by
  obtain ⟨run, -, late, inTime, stalled⟩ := stalls_of_throwing 7 3
    sampleOutage sampleDispatching
    (show [(⟨(), true⟩ : SinkHandle Unit)][0]? = some ⟨(), true⟩ from rfl)
    rfl rfl
    sampleOutage_throwing sampleOutage_enough
  exact ⟨run, late, inTime, by rw [stalled]; rfl⟩

end Retry
end Dispatcher
end Walkrie
