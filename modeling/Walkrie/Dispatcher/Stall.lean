import Walkrie.Dispatcher.Delivery

/-!
# A stalled required sink stops the pipeline

Once the retry loop has given up on a required sink, a thread whose main-loop
stalls are reported exits in the same step.  What follows in the trace is at
most the report itself and jobs posted to a queue nobody reads.
-/

namespace Walkrie
namespace Dispatcher

variable {σ ρ : Type}
variable {settings : Settings}
variable {state next : State σ ρ} {label : Label σ ρ} {batch : Batch σ}

/-- How often `on_fatal` has been called. -/
def fatalCalls (trace : List (Output σ ρ)) : Nat :=
  trace.countP fun
    | .fatal => true
    | _ => false

@[simp] theorem fatalCalls_append (first second : List (Output σ ρ)) :
    fatalCalls (first ++ second) = fatalCalls first + fatalCalls second := by
  simp [fatalCalls]

/-! ## The stop -/

/-- After a stall nothing is handed to a sink or confirmed any more, and an
installed fatal callback has been called exactly once. -/
structure StopsAfterStall
    (settings : Settings)
    (state : State σ ρ) : Prop where
  notDispatched : ∀ before position batch after,
    state.trace = before ++ .gaveUp position batch :: after →
      ∀ later, Output.dispatched later ∉ after
  notCalled : ∀ before position batch after,
    state.trace = before ++ .gaveUp position batch :: after →
      ∀ index later outcome, Output.called index later outcome ∉ after
  notConfirmed : ∀ before position batch after,
    state.trace = before ++ .gaveUp position batch :: after →
      ∀ source lsn, Output.confirmed source lsn ∉ after
  fatalOnce : settings.onFatal = true →
    (∃ position batch, Output.gaveUp position batch ∈ state.trace) →
      fatalCalls state.trace = 1

/-- Inductive form of the stop: only posts and the report follow a stall, and
the report is counted. -/
structure Halted
    (settings : Settings)
    (trace : List (Output σ ρ)) : Prop where
  quiet : ∀ before position batch after,
    trace = before ++ .gaveUp position batch :: after →
      ∀ output ∈ after, (∃ job, output = .posted job) ∨ output = .fatal
  uncalled : (∀ position batch, Output.gaveUp position batch ∉ trace) →
    fatalCalls trace = 0
  once : settings.onFatal = true →
    (∃ position batch, Output.gaveUp position batch ∈ trace) →
      fatalCalls trace = 1

/-- A stall inside an extended trace lies in the old part or in the new. -/
theorem split_stall
    {trace outputs before after : List (Output σ ρ)}
    {position : Nat}
    (split : trace ++ outputs =
      before ++ .gaveUp position batch :: after) :
    (∃ rest, trace = before ++ .gaveUp position batch :: rest ∧
      after = rest ++ outputs) ∨
    ∃ start, outputs = start ++ .gaveUp position batch :: after := by
  rcases List.append_eq_append_iff.mp split with
    ⟨start, _, inNew⟩ | ⟨rest, inOld, tail⟩
  · exact .inr ⟨start, inNew⟩
  · cases rest with
    | nil => exact .inr ⟨[], tail.symm⟩
    | cons head rest =>
        simp only [List.cons_append, List.cons.injEq] at tail
        exact .inl ⟨rest, tail.1 ▸ inOld, tail.2⟩

theorem Calm.fatalCalls
    {outputs : List (Output σ ρ)}
    (calm : Calm outputs) :
    fatalCalls outputs = 0 := by
  rw [Dispatcher.fatalCalls, List.countP_eq_zero]
  intro output member
  have different := (calm output member).1
  cases output <;> simp_all

/-- Calm observations of a thread that has not stalled. -/
theorem Halted.calm
    {trace outputs : List (Output σ ρ)}
    (halted : Halted settings trace)
    (unstalled : ∀ position batch, Output.gaveUp position batch ∉ trace)
    (calm : Calm outputs) :
    Halted settings (trace ++ outputs) := by
  have absent : ∀ position batch,
      Output.gaveUp position batch ∉ trace ++ outputs := by
    intro position batch member
    rcases List.mem_append.mp member with earlier | new
    · exact unstalled position batch earlier
    · exact (calm _ new).2 position batch rfl
  refine ⟨?_, fun _ => ?_, fun _ stalled => ?_⟩
  · intro before position batch after split
    exact absurd (split ▸ List.mem_append_right before
      List.mem_cons_self) (absent position batch)
  · simp [halted.uncalled unstalled, calm.fatalCalls]
  · obtain ⟨position, batch, member⟩ := stalled
    exact absurd member (absent position batch)

/-- The step that gives up, in a thread that has not stalled before. -/
theorem Halted.stall
    {position : Nat}
    {outcome : Attempt ρ}
    (halted : Halted settings state.trace)
    (unstalled : Unstalled state) :
    Halted settings (state.trace ++ (.called position batch outcome ::
      .gaveUp position batch :: fatalReport settings state)) := by
  refine ⟨?_, fun unstalled => ?_, fun installed _ => ?_⟩
  · intro before other lost after split output member
    rcases split_stall split with ⟨rest, old, _⟩ | ⟨start, new⟩
    · exact absurd (old ▸ List.mem_append_right before
        List.mem_cons_self) (unstalled.trace other lost)
    · have small : after ⊆ fatalReport settings state := by
        cases start with
        | nil => simp at new
        | cons _ start =>
            simp only [List.cons_append, List.cons.injEq] at new
            cases start with
            | nil =>
                simp only [List.nil_append, List.cons.injEq] at new
                exact new.2.2 ▸ List.Subset.refl _
            | cons _ start =>
                simp only [List.cons_append, List.cons.injEq] at new
                rw [new.2.2]
                intro other member
                exact List.mem_append_right start
                  (List.mem_cons_of_mem _ member)
      have reported := small member
      unfold fatalReport at reported
      split at reported
      · exact .inr (by simpa using reported)
      · cases reported
  · exact absurd (by simp) (unstalled position batch)
  · rw [fatalCalls_append, halted.uncalled unstalled.trace]
    simp [fatalReport, unstalled.flag, installed, fatalCalls]

/-- Posts to a thread that has exited. -/
theorem Halted.posts
    {trace outputs : List (Output σ ρ)}
    (halted : Halted settings trace)
    (posts : ∀ output ∈ outputs, ∃ job, output = .posted job) :
    Halted settings (trace ++ outputs) := by
  have calm : Calm outputs := by
    intro output member
    obtain ⟨job, rfl⟩ := posts output member
    simp
  refine ⟨?_, fun unstalled => ?_, fun installed stalled => ?_⟩
  · intro before position batch after split output member
    rcases split_stall split with ⟨rest, old, tail⟩ | ⟨start, new⟩
    · rw [tail] at member
      rcases List.mem_append.mp member with earlier | later
      · exact halted.quiet before position batch rest old output earlier
      · exact .inl (posts output later)
    · have lost := (calm (.gaveUp position batch) (by simp [new])).2
      exact absurd rfl (lost position batch)
  · rw [fatalCalls_append, calm.fatalCalls,
      halted.uncalled fun position batch member =>
        unstalled position batch (List.mem_append_left outputs member)]
  · obtain ⟨position, batch, member⟩ := stalled
    rcases List.mem_append.mp member with earlier | later
    · simp [calm.fatalCalls, halted.once installed ⟨position, batch, earlier⟩]
    · exact absurd rfl ((calm _ later).2 position batch)

/-- A thread that has not exited has not stalled, and a stalled one is
halted. -/
structure Guarded
    (settings : Settings)
    (state : State σ ρ) : Prop where
  unstalled : state.phase ≠ .exited → Unstalled state
  halted : Halted settings state.trace

/-- Every step that is not an unreported stall keeps a stalled thread
halted. -/
theorem step_guarded
    (guarded : Guarded settings state)
    (reported : ¬StallsUnreported settings state label)
    (taken : step settings state label = some next) :
    Guarded settings next := by
  obtain ⟨alive, halted⟩ := guarded
  by_cases exited : state.phase = .exited
  · obtain ⟨stays, outputs, trace, posts⟩ := step_exited exited taken
    exact ⟨fun leaves => absurd stays leaves, trace ▸ halted.posts posts⟩
  · have unstalled := alive exited
    obtain ⟨outputs, trace, _, ⟨calm, flag⟩ |
      ⟨position, batch, outcome, stall, ends⟩⟩ := step_observed taken
    · refine ⟨fun _ => ⟨flag.trans unstalled.flag, ?_⟩,
        trace ▸ halted.calm unstalled.trace calm⟩
      intro position batch member
      rw [trace] at member
      rcases List.mem_append.mp member with earlier | new
      · exact unstalled.trace position batch earlier
      · exact (calm _ new).2 position batch rfl
    · refine ⟨fun leaves => absurd (ends unstalled.flag reported) leaves, ?_⟩
      rw [trace, stall]
      exact halted.stall unstalled

theorem initial_guarded : Guarded settings ({} : State σ ρ) := by
  refine ⟨fun _ => ⟨rfl, by simp⟩, ?_, fun _ => rfl, fun _ stalled => ?_⟩
  · intro before position batch after split
    simp at split
  · simp at stalled

/-- In every run whose main-loop stalls are reported, a stalled required sink
stops the pipeline. -/
theorem stopsAfterStall_of_reachable
    (settings : Settings)
    (state : State σ ρ)
    (reachable : Transition.Reachable (step settings)
      (fun before label => ¬StallsUnreported settings before label)
      {} state) :
    StopsAfterStall settings state := by
  have guarded : Guarded settings state :=
    reachable.invariant (Guarded settings) initial_guarded
      fun _ _ _ guarded reported taken => step_guarded guarded reported taken
  have quiet := guarded.halted.quiet
  refine ⟨?_, ?_, ?_, guarded.halted.once⟩
  · intro before position batch after split later member
    simpa using quiet before position batch after split _ member
  · intro before position batch after split index later outcome member
    simpa using quiet before position batch after split _ member
  · intro before position batch after split source lsn member
    simpa using quiet before position batch after split _ member

/-- A required sink that stalls in the main loop of a dispatcher with a fatal
callback; a further job is posted behind it. -/
def reportedStallRun : List (Label Unit Unit) :=
  let sinks : List (SinkHandle Unit) := [⟨(), true⟩]
  [.post (sampleJob sinks 10), .post (sampleJob sinks 20), .checkRunning,
    .wait true 0, .collect 0 true, .attempt (.threw 0),
    .attempt (.threw 60000000000), .post (sampleJob sinks 30), .stop]

theorem stopsAfterStall_reportedStallRun :
    ∃ state : State Unit Unit,
      Transition.Reachable (step {})
        (fun before label => ¬StallsUnreported {} before label) {} state ∧
      fatalCalls state.trace = 1 ∧
      StopsAfterStall {} state := by
  obtain ⟨state, reachable, final⟩ := Transition.exists_reachable_of_run
    (fun before label => ¬StallsUnreported {} before label) reportedStallRun
    (fun _ _ _ stalls => by cases stalls.1)
    (show (Transition.run (step {}) {} reportedStallRun).any
      (fun state => fatalCalls state.trace = 1) = true by decide)
  exact ⟨state, reachable, by simpa using final,
    stopsAfterStall_of_reachable _ state reachable⟩

/-- Without a fatal callback the drain hands the next batch to the stalled
sink. -/
theorem not_stopsAfterStall_unreportedRun :
    ¬∀ (settings : Settings) (state : State Unit Unit),
      Transition.Reachable (step settings) (fun _ _ => True) {} state →
      StopsAfterStall settings state := by
  intro claim
  let sinks : List (SinkHandle Unit) := [⟨(), true⟩]
  let lost : Batch Unit := ⟨0, [sampleJob sinks 10], sinks⟩
  let drained : Batch Unit := ⟨1, [sampleJob sinks 20], sinks⟩
  obtain ⟨state, reachable, final⟩ := Transition.exists_reachable_of_run
    (fun _ _ => True) unreportedRun (fun _ _ _ => trivial)
    (show (Transition.run (step { onFatal := false }) {} unreportedRun).any
      (fun state => state.trace =
        [.posted (sampleJob sinks 10), .posted (sampleJob sinks 20),
          .dequeued (sampleJob sinks 10), .dispatched lost,
          .called 0 lost (.threw 60000000000), .gaveUp 0 lost,
          .dequeued (sampleJob sinks 20), .dispatched drained,
          .called 0 drained (.returned ()), .completed 0 drained]) = true
      by decide)
  have stops := claim { onFatal := false } state reachable
  have trace := of_decide_eq_true final
  exact stops.notCalled (state.trace.take 5) 0 lost (state.trace.drop 6)
    (by rw [trace]; rfl) 0 drained (.returned ()) (by rw [trace]; decide)

end Dispatcher
end Walkrie
