import Mathlib

/-!
# Deterministic labelled transitions

A component that reacts to labels is given by a partial step function.  This
module packages the two inductions every safety argument about such a
component needs: one over the states reachable by permitted steps, and one
over an explicit list of labels, which can be evaluated.
-/

namespace Transition

variable {State Label : Type*}

/-- Execute a list of labels, failing as soon as one of them is not enabled. -/
def run (step : State → Label → Option State) :
    State → List Label → Option State
  | state, [] => some state
  | state, label :: labels =>
      match step state label with
      | none => none
      | some next => run step next labels

theorem run_append
    (step : State → Label → Option State)
    (state : State)
    (labels later : List Label) :
    run step state (labels ++ later) =
      (run step state labels).bind fun next => run step next later := by
  induction labels generalizing state with
  | nil => rfl
  | cons label labels inductionHypothesis =>
      simp only [List.cons_append, run]
      cases step state label with
      | none => rfl
      | some next => exact inductionHypothesis next

/-- States reachable from `start` when every step taken is permitted in the
state it is taken from. -/
inductive Reachable
    (step : State → Label → Option State)
    (permitted : State → Label → Prop)
    (start : State) : State → Prop
  | start : Reachable step permitted start start
  | next
      {state next : State}
      {label : Label}
      (before : Reachable step permitted start state)
      (allowed : permitted state label)
      (taken : step state label = some next) :
      Reachable step permitted start next

variable {step : State → Label → Option State}
variable {permitted : State → Label → Prop}
variable {start state : State}

/-- A property of the start that every permitted step preserves holds in every
reachable state. -/
theorem Reachable.invariant
    (reachable : Reachable step permitted start state)
    (property : State → Prop)
    (initial : property start)
    (preserved : ∀ before label after,
      property before → permitted before label →
      step before label = some after → property after) :
    property state := by
  induction reachable with
  | start => exact initial
  | next _ allowed taken inductionHypothesis =>
      exact preserved _ _ _ inductionHypothesis allowed taken

/-- Permitting more steps keeps every reachable state reachable. -/
theorem Reachable.mono
    {weaker : State → Label → Prop}
    (reachable : Reachable step permitted start state)
    (implies : ∀ before label,
      permitted before label → weaker before label) :
    Reachable step weaker start state := by
  induction reachable with
  | start => exact .start
  | next _ allowed taken inductionHypothesis =>
      exact .next inductionHypothesis (implies _ _ allowed) taken

/-- Executing labels from a reachable state reaches another one, provided each
label is permitted wherever it is taken. -/
theorem Reachable.run
    (labels : List Label)
    (reachable : Reachable step permitted start state)
    (allowed : ∀ before, ∀ label ∈ labels, permitted before label)
    {final : State}
    (executed : run step state labels = some final) :
    Reachable step permitted start final := by
  induction labels generalizing state with
  | nil =>
      cases executed
      exact reachable
  | cons label labels inductionHypothesis =>
      cases taken : step state label with
      | none => simp [Transition.run, taken] at executed
      | some next =>
          simp only [Transition.run, taken] at executed
          exact inductionHypothesis
            (reachable.next (allowed _ _ List.mem_cons_self) taken)
            (fun before other member =>
              allowed before other (List.mem_cons_of_mem label member))
            executed

/-- A run whose final state passes a test exhibits a reachable state that
passes it. -/
theorem exists_reachable_of_run
    (permitted : State → Label → Prop)
    (labels : List Label)
    (allowed : ∀ before, ∀ label ∈ labels, permitted before label)
    {test : State → Bool}
    (passed : (run step start labels).any test = true) :
    ∃ final, Reachable step permitted start final ∧ test final = true := by
  cases executed : run step start labels with
  | none => simp [executed] at passed
  | some final =>
      simp only [executed, Option.any_some] at passed
      exact ⟨final, Reachable.start.run labels allowed executed, passed⟩

/-- A measure that pays for every counted step and that no step raises bounds
how often counted labels are taken. -/
theorem countP_le_of_run
    (step : State → Label → Option State)
    (counted : Label → Bool)
    (measure : State → Nat)
    (pays : ∀ before label after, step before label = some after →
      (if counted label then 1 else 0) + measure after ≤ measure before)
    {labels : List Label}
    {final : State}
    (executed : run step state labels = some final) :
    labels.countP counted + measure final ≤ measure state := by
  induction labels generalizing state with
  | nil =>
      cases executed
      simp
  | cons label labels inductionHypothesis =>
      cases taken : step state label with
      | none => simp [Transition.run, taken] at executed
      | some next =>
          simp only [Transition.run, taken] at executed
          have rest := inductionHypothesis executed
          have paid := pays state label next taken
          rw [List.countP_cons]
          omega

/-- A machine whose steps are steps of a more abstract one, or no steps of it
at all, reaches only what that one reaches. -/
theorem Reachable.simulation
    {State' Label' : Type*}
    {step' : State' → Label' → Option State'}
    {permitted' : State' → Label' → Prop}
    (abstract : State → State')
    (performs : State → Label → Option Label')
    (invariant : State → Prop)
    (initial : invariant start)
    (simulates : ∀ before label after, invariant before →
      permitted before label → step before label = some after →
      invariant after ∧
        match performs before label with
        | none => abstract after = abstract before
        | some label' =>
            permitted' (abstract before) label' ∧
              step' (abstract before) label' = some (abstract after))
    (reachable : Reachable step permitted start state) :
    invariant state ∧
      Reachable step' permitted' (abstract start) (abstract state) := by
  induction reachable with
  | start => exact ⟨initial, .start⟩
  | next before allowed taken inductionHypothesis =>
      obtain ⟨holds, reached⟩ := inductionHypothesis
      obtain ⟨kept, simulated⟩ := simulates _ _ _ holds allowed taken
      refine ⟨kept, ?_⟩
      split at simulated
      · rw [simulated]
        exact reached
      · exact reached.next simulated.1 simulated.2

/-- A step function that refuses what is not permitted. -/
def guarded
    (step : State → Label → Option State)
    (permitted : State → Label → Prop)
    [∀ state label, Decidable (permitted state label)]
    (state : State)
    (label : Label) : Option State :=
  if permitted state label then step state label else none

/-- The evaluable form of reachability: a run of the guarded step function
whose final state passes a test. -/
theorem exists_reachable_of_guarded
    (permitted : State → Label → Prop)
    [∀ state label, Decidable (permitted state label)]
    (labels : List Label)
    {test : State → Bool}
    (passed : (run (guarded step permitted) start labels).any test = true) :
    ∃ final, Reachable step permitted start final ∧ test final = true := by
  obtain ⟨final, reachable, tested⟩ := exists_reachable_of_run
    (fun _ _ => True) labels (fun _ _ _ => trivial) passed
  refine ⟨final, ?_, tested⟩
  refine reachable.invariant (Reachable step permitted start) .start ?_
  intro before label after reached _ taken
  unfold guarded at taken
  split at taken <;> rename_i allowed
  · exact reached.next allowed taken
  · cases taken

/-- The form for a mixed permission: what can be evaluated is checked along the
run, and the rest is known of the labels. -/
theorem exists_reachable_of_checked
    (permitted : State → Label → Prop)
    (check : State → Label → Prop)
    [∀ state label, Decidable (check state label)]
    (labels : List Label)
    (allowed : ∀ state, ∀ label ∈ labels, check state label →
      permitted state label)
    {test : State → Bool}
    (passed : (run (guarded step check) start labels).any test = true) :
    ∃ final, Reachable step permitted start final ∧ test final = true := by
  suffices reaches : ∀ (state : State) (rest : List Label),
      Reachable step permitted start state → rest ⊆ labels →
      (run (guarded step check) state rest).any test = true →
      ∃ final, Reachable step permitted start final ∧ test final = true from
    reaches start labels .start (List.Subset.refl labels) passed
  intro state rest reached inside passed
  induction rest generalizing state with
  | nil => exact ⟨state, reached, passed⟩
  | cons label rest inductionHypothesis =>
      obtain ⟨member, inside⟩ := List.cons_subset.mp inside
      unfold run guarded at passed
      by_cases checked : check state label
      · rw [if_pos checked] at passed
        cases taken : step state label with
        | none => simp [taken] at passed
        | some next =>
            rw [taken] at passed
            exact inductionHypothesis next
              (reached.next (allowed state label member checked) taken)
              inside passed
      · simp [if_neg checked] at passed

end Transition
