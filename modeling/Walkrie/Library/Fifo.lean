import Mathlib

/-!
# Queues between two threads

What a first-in-first-out queue of a given capacity is allowed to answer, as
a property of the events of one producer and one consumer, in the order in
which they take effect.  Answers that depend on what the other thread did
refer to an earlier moment of the same call: a consumer looks, and may later
say that there was nothing, and a producer measures, and may later say that
there was no room, or make some.
-/

namespace Fifo

variable {α : Type*}

inductive Event (α : Type*) where
  | push (element : α)
  | pop (element : α)
  /-- The consumer looks whether there is an element. -/
  | look
  /-- The consumer answers that there was none. -/
  | miss
  /-- The producer looks whether there is room. -/
  | measure
  /-- The producer answers that there was none. -/
  | refuse (element : α)
  /-- The producer makes room. -/
  | grow
deriving DecidableEq, Repr

/-- The elements, whether there were none when the consumer looked, and
whether the queue was full when the producer did. -/
structure Memory (α : Type*) where
  elements : List α := []
  sawEmpty : Bool := false
  sawFull : Bool := false

/-- What one event does, and when it may happen. -/
inductive Step (capacity : Nat) : Memory α → Event α → Memory α → Prop
  | push {elements sawEmpty sawFull} (element : α) :
      Step capacity ⟨elements, sawEmpty, sawFull⟩ (.push element)
        ⟨elements ++ [element], sawEmpty, false⟩
  | pop {elements sawEmpty sawFull} {element : α} :
      Step capacity ⟨element :: elements, sawEmpty, sawFull⟩ (.pop element)
        ⟨elements, false, sawFull⟩
  | look {elements sawEmpty sawFull} :
      Step capacity ⟨elements, sawEmpty, sawFull⟩ .look
        ⟨elements, elements.isEmpty, sawFull⟩
  | miss {elements sawFull} :
      Step capacity ⟨elements, true, sawFull⟩ .miss
        ⟨elements, false, sawFull⟩
  | measure {elements sawEmpty sawFull} :
      Step capacity ⟨elements, sawEmpty, sawFull⟩ .measure
        ⟨elements, sawEmpty, decide (capacity ≤ elements.length)⟩
  | refuse {elements sawEmpty} (element : α) :
      Step capacity ⟨elements, sawEmpty, true⟩ (.refuse element)
        ⟨elements, sawEmpty, false⟩
  | grow {elements sawEmpty} :
      Step capacity ⟨elements, sawEmpty, true⟩ .grow
        ⟨elements, sawEmpty, false⟩

/-- The events a queue may have shown since it was empty. -/
inductive Legal (capacity : Nat) : List (Event α) → Memory α → Prop
  | start : Legal capacity [] {}
  | next {events : List (Event α)} {before after : Memory α}
      {event : Event α}
      (legal : Legal capacity events before)
      (step : Step capacity before event after) :
      Legal capacity (events ++ [event]) after

/-- The elements that were put in. -/
def pushed : List (Event α) → List α :=
  List.filterMap fun
    | .push element => some element
    | _ => none

/-- The elements that were taken out. -/
def popped : List (Event α) → List α :=
  List.filterMap fun
    | .pop element => some element
    | _ => none

variable {capacity : Nat}
variable {events : List (Event α)}
variable {memory other : Memory α}

theorem Step.unique
    {event : Event α}
    {after after' : Memory α}
    (step : Step capacity memory event after)
    (step' : Step capacity memory event after') :
    after = after' := by
  cases step <;> cases step' <;> rfl

theorem Step.of_look
    (step : Step capacity memory .look other) :
    other.elements = memory.elements ∧
      other.sawEmpty = memory.elements.isEmpty := by
  cases step
  exact ⟨rfl, rfl⟩

theorem Step.of_miss
    (step : Step capacity memory .miss other) :
    other.elements = memory.elements ∧ memory.sawEmpty = true := by
  cases step
  exact ⟨rfl, rfl⟩

theorem Step.of_measure
    (step : Step capacity memory .measure other) :
    other.elements = memory.elements := by
  cases step
  rfl

theorem Step.of_refuse
    {element : α}
    (step : Step capacity memory (.refuse element) other) :
    other.elements = memory.elements := by
  cases step
  rfl

namespace Legal

/-- The last event of a legal history. -/
theorem last
    {event : Event α}
    (legal : Legal capacity (events ++ [event]) memory) :
    ∃ before, Legal capacity events before ∧
      Step capacity before event memory := by
  generalize appended : events ++ [event] = history at legal
  cases legal with
  | start => simp at appended
  | next legal step =>
      obtain ⟨same, lasts⟩ := List.append_inj' appended rfl
      cases lasts
      exact ⟨_, same ▸ legal, step⟩

theorem eq_of_nil (legal : Legal capacity [] memory) : memory = {} := by
  generalize empty : ([] : List (Event α)) = history at legal
  cases legal with
  | start => rfl
  | next legal step => simp at empty

theorem unique
    (legal : Legal capacity events memory)
    (legal' : Legal capacity events other) :
    memory = other := by
  induction legal generalizing other with
  | start => exact legal'.eq_of_nil.symm
  | next legal step inductionHypothesis =>
      obtain ⟨before, earlier, step'⟩ := legal'.last
      rw [← inductionHypothesis earlier] at step'
      exact step.unique step'

/-- The consumer finds nothing at the moment it says so. -/
theorem missed
    (legal : Legal capacity events memory)
    (empty : memory.elements = []) :
    Legal capacity (events ++ [.look, .miss])
      { memory with sawEmpty := false } := by
  obtain ⟨elements, sawEmpty, sawFull⟩ := memory
  subst empty
  have looked := legal.next .look
  have answered := looked.next .miss
  rwa [List.append_assoc] at answered

/-- A queue that need not have room may refuse at any moment. -/
theorem refused
    (legal : Legal 0 events memory)
    (element : α) :
    Legal 0 (events ++ [.measure, .refuse element])
      { memory with sawFull := false } := by
  have measured := legal.next .measure
  rw [decide_eq_true (Nat.zero_le _)] at measured
  have answered := measured.next (.refuse element)
  rwa [List.append_assoc] at answered

/-- Elements leave in the order they came in, and none is lost or made up. -/
theorem pushed_eq (legal : Legal capacity events memory) :
    pushed events = popped events ++ memory.elements := by
  induction legal with
  | start => rfl
  | next legal step inductionHypothesis =>
      cases step <;> simp_all [pushed, popped]

/-- The elements that are in the queue after some events. -/
theorem drop_eq (legal : Legal capacity events memory) :
    (pushed events).drop (popped events).length = memory.elements := by
  rw [legal.pushed_eq, List.drop_left]

theorem elements_of_push
    {element : α}
    (legal : Legal capacity events memory)
    (longer : Legal capacity (events ++ [.push element]) other) :
    other.elements = memory.elements ++ [element] := by
  obtain ⟨before, earlier, step⟩ := longer.last
  obtain rfl := earlier.unique legal
  cases step
  rfl

theorem elements_of_pop
    {element : α}
    (legal : Legal capacity events memory)
    (longer : Legal capacity (events ++ [.pop element]) other) :
    memory.elements = element :: other.elements := by
  obtain ⟨before, earlier, step⟩ := longer.last
  obtain rfl := earlier.unique legal
  cases step
  rfl

theorem elements_of_miss
    (legal : Legal capacity events memory)
    (longer : Legal capacity (events ++ [.look, .miss]) other) :
    memory.elements = [] ∧ other.elements = [] := by
  rw [← List.singleton_append, ← List.append_assoc] at longer
  obtain ⟨looked, middle, answered⟩ := longer.last
  obtain ⟨before, earlier, step⟩ := middle.last
  obtain rfl := earlier.unique legal
  obtain ⟨kept, saw⟩ := step.of_look
  obtain ⟨same, found⟩ := answered.of_miss
  have empty := List.isEmpty_iff.mp (saw.symm.trans found)
  exact ⟨empty, same.trans (kept.trans empty)⟩

theorem elements_of_refuse
    {element : α}
    (legal : Legal capacity events memory)
    (longer : Legal capacity (events ++ [.measure, .refuse element]) other) :
    other.elements = memory.elements := by
  rw [← List.singleton_append, ← List.append_assoc] at longer
  obtain ⟨measured, middle, answered⟩ := longer.last
  obtain ⟨before, earlier, step⟩ := middle.last
  obtain rfl := earlier.unique legal
  exact answered.of_refuse.trans step.of_measure

end Legal

end Fifo
