import Walkrie.Library.Transition
import Walkrie.Sink.Records

/-!
# Replay after crashes

A sink applies an event history in batches.  An invocation of `call_batch` may
be cut off after any write, a batch may be retried, and the process may start
again from an earlier position.  Since an upsert, delete or truncate does not
show once it is repeated, the table ends up as if the history had been applied
once.
-/

namespace Walkrie
namespace Sink
namespace Recovery

variable {φ : Type}

/-- Where a sequence of runs over a history stands. -/
structure State (φ : Type) where
  records : Records φ
  /-- First event of the next batch. -/
  position : Nat := 0
  /-- One past the event applied last, where the next run may start. -/
  frontier : Nat := 0

inductive Label (φ : Type)
  /-- `call_batch` is invoked with the next events. -/
  | attempt (size : Nat) (environment : Environment φ)
  /-- The process ends, and another run starts from a position. -/
  | restart (position : Nat)

/-- Number of events up to the one whose write comes after the writes that were
made. -/
def reach (mappings : List TableMapping) : Nat → List ChangeEvent → Nat
  | _, [] => 0
  | made, event :: events =>
      match planEvent mappings event with
      | none => reach mappings made events + 1
      | some _ =>
          match made with
          | 0 => 0
          | made + 1 => reach mappings made events + 1

/-- One batch, or one new run.  An invocation that did not return is retried
from the same position. -/
def step
    (mappings : List TableMapping)
    (history : List ChangeEvent)
    (state : State φ) : Label φ → Option (State φ)
  | .attempt size environment =>
      let batch := (history.drop state.position).take size
      let applied := callBatch environment mappings batch
      let next := state.position + batch.length
      if applied.returned then
        some {
          records := state.records.after applied
          position := next
          frontier := next }
      else
        some {
          records := state.records.after applied
          position := state.position
          frontier :=
            if applied.writes.isEmpty then state.frontier
            else state.position + reach mappings applied.writes.length batch }
  | .restart position =>
      if position ≤ state.frontier then
        some { state with position, frontier := position }
      else none

/-- The embedding is deterministic, and no write reports failure. -/
def Faithful (embed : String → List φ) (_ : State φ) : Label φ → Prop
  | .attempt _ environment => Answers embed environment
  | .restart _ => True

/-- What one event does to the table. -/
def applyEvent (embed : String → List φ) (mappings : List TableMapping) :
    Records φ → ChangeEvent → Records φ :=
  Replay.applyEntry (Records.perform embed) (planEvent mappings)

theorem foldl_applyEvent
    (embed : String → List φ)
    (mappings : List TableMapping)
    (events : List ChangeEvent)
    (records : Records φ) :
    events.foldl (applyEvent embed mappings) records =
      records.performAll embed (plan mappings events) :=
  Replay.foldl_applyEntry (Records.perform embed) (planEvent mappings) events
    records

theorem superseding_applyEvent
    (embed : String → List φ)
    (mappings : List TableMapping) :
    Replay.Superseding (applyEvent embed mappings) :=
  (superseding_perform embed).applyEntry (planEvent mappings)

theorem reach_le
    (mappings : List TableMapping)
    (made : Nat)
    (events : List ChangeEvent) :
    reach mappings made events ≤ events.length := by
  induction events generalizing made with
  | nil => exact le_rfl
  | cons event events inductionHypothesis =>
      unfold reach
      split
      · exact Nat.succ_le_succ (inductionHypothesis made)
      · split
        · exact Nat.zero_le _
        · exact Nat.succ_le_succ (inductionHypothesis _)

/-- The events reached by a number of writes plan just these writes. -/
theorem plan_take_reach
    (mappings : List TableMapping)
    (made : Nat)
    (events : List ChangeEvent) :
    plan mappings (events.take (reach mappings made events)) =
      (plan mappings events).take made := by
  unfold plan
  induction events generalizing made with
  | nil => simp
  | cons event events inductionHypothesis =>
      unfold reach
      cases planned : planEvent mappings event with
      | none => simp [planned, inductionHypothesis]
      | some action =>
          cases made with
          | zero => simp
          | succ made => simp [planned, inductionHypothesis]

section Runs

variable {embed : String → List φ}
variable {mappings : List TableMapping}
variable {history : List ChangeEvent}

/-- An invocation has the effect of the events it reached, all of them if it
returned. -/
theorem after_callBatch_reach
    {environment : Environment φ}
    (answers : Answers embed environment)
    (filled : ∀ text, embed text ≠ [])
    (mappings : List TableMapping)
    (events : List ChangeEvent)
    (records : Records φ) :
    records.after (callBatch environment mappings events) =
      (events.take (reach mappings
        (callBatch environment mappings events).writes.length events)).foldl
          (applyEvent embed mappings) records := by
  obtain ⟨made, inside, writes, _⟩ :=
    answers.callBatch filled mappings events
  have count :
      (callBatch environment mappings events).writes.length = made := by
    rw [writes, List.length_map, List.length_take, min_eq_left inside]
  rw [count, foldl_applyEvent, plan_take_reach, Records.after, writes,
    List.map_map, List.foldl_map]
  rfl

/-- Invariant of all runs: any remainder of the history that may still be
applied leads to the same table. -/
structure Recovers
    (embed : String → List φ)
    (mappings : List TableMapping)
    (history : List ChangeEvent)
    (final : Records φ)
    (state : State φ) : Prop where
  converges : Replay.Converges (applyEvent embed mappings) history final
    state.frontier state.records
  reached : state.position ≤ state.frontier
  inside : state.frontier ≤ history.length

theorem recovers_initial
    (embed : String → List φ)
    (mappings : List TableMapping)
    (history : List ChangeEvent)
    (initial : Records φ) :
    Recovers embed mappings history
      (initial.performAll embed (plan mappings history))
      { records := initial } where
  converges := by
    have whole := Replay.converges_zero (applyEvent embed mappings) history
      initial
    rwa [foldl_applyEvent] at whole
  reached := le_rfl
  inside := Nat.zero_le _

/-- Applying the first of the next events moves the frontier behind them. -/
theorem Recovers.stretch
    {final : Records φ}
    {state : State φ}
    (recovers : Recovers embed mappings history final state)
    (size : Nat)
    {count : Nat}
    (short : count ≤ ((history.drop state.position).take size).length) :
    state.position + count ≤ history.length ∧
      Replay.Converges (applyEvent embed mappings) history final
        (state.position + count)
        ((((history.drop state.position).take size).take count).foldl
          (applyEvent embed mappings) state.records) := by
  have bound := recovers.reached
  have bound' := recovers.inside
  rw [List.length_take, List.length_drop] at short
  have inside : state.position + count ≤ history.length := by omega
  refine ⟨inside, ?_⟩
  rw [List.take_take, min_eq_left (by omega)]
  exact recovers.converges.stretch (superseding_applyEvent embed mappings)
    recovers.reached count inside

theorem step_recovers
    (filled : ∀ text, embed text ≠ [])
    {final : Records φ}
    {state next : State φ}
    {label : Label φ}
    (recovers : Recovers embed mappings history final state)
    (faithful : Faithful embed state label)
    (taken : step mappings history state label = some next) :
    Recovers embed mappings history final next := by
  cases label with
  | restart position =>
      simp only [step] at taken
      split at taken <;> rename_i early
      · cases taken
        exact ⟨recovers.converges.mono early, le_rfl,
          Nat.le_trans early recovers.inside⟩
      · cases taken
  | attempt size environment =>
      simp only [step] at taken
      split at taken <;> rename_i returned
      · cases taken
        obtain ⟨inside, converges⟩ := recovers.stretch size le_rfl
        rw [List.take_length, foldl_applyEvent,
          ← faithful.after_callBatch filled mappings _ returned] at converges
        exact ⟨converges, le_rfl, inside⟩
      · cases taken
        -- The writes made so far are those of the events reached so far.
        have after := after_callBatch_reach faithful filled mappings
          ((history.drop state.position).take size) state.records
        split <;> rename_i writes
        · rw [List.isEmpty_iff] at writes
          rw [Records.after, writes]
          exact recovers
        · rw [after]
          obtain ⟨inside, converges⟩ := recovers.stretch size
            (reach_le mappings
              (callBatch environment mappings
                ((history.drop state.position).take size)).writes.length
              ((history.drop state.position).take size))
          exact ⟨converges, Nat.le_add_right _ _, inside⟩

/-- Crashes and retries do not show once the end of the history is reached:
the table is the one a single uninterrupted invocation leaves. -/
theorem records_eq_of_complete
    (embed : String → List φ)
    (filled : ∀ text, embed text ≠ [])
    (mappings : List TableMapping)
    (history : List ChangeEvent)
    (initial : Records φ)
    {state : State φ}
    (reachable : Transition.Reachable (step mappings history) (Faithful embed)
      { records := initial } state)
    (complete : history.length ≤ state.position) :
    state.records =
      initial.after (callBatch (steady embed) mappings history) := by
  have recovers := reachable.invariant
    (Recovers embed mappings history
      (initial.performAll embed (plan mappings history)))
    (recovers_initial embed mappings history initial)
    (fun _ _ _ holds faithful taken =>
      step_recovers filled holds faithful taken)
  rw [after_steady filled]
  exact recovers.converges.eq_final
    (Nat.le_trans complete recovers.reached)

end Runs

/-! ## A sample of three runs -/

/-- The process ends after a number of writes. -/
def cutOff (limit : Nat) : Environment Nat where
  embedBatch := fun texts => some (texts.map sampleEmbed)
  write := fun count _ => if count < limit then some true else none

theorem answers_cutOff (limit : Nat) :
    Answers sampleEmbed (cutOff limit) where
  embeds := (answers_steady sampleEmbed).embeds
  writes := by
    intro count write result answer
    simp only [cutOff, Option.mem_def, Option.ite_none_right_eq_some,
      Option.some_inj] at answer
    exact answer.2.symm

/-- A text is written, truncated away and written again. -/
def sampleHistory : List ChangeEvent :=
  [articleInsert "1" "old" "a", articlesTruncate,
    articleInsert "1" "text" "b"]

/-- The first run is cut off after two writes, the second before its first
write, and the third starts over with batches of two. -/
def sampleRuns : List (Label Nat) :=
  [.attempt 3 (cutOff 2), .restart 1, .attempt 1 (cutOff 0),
    .restart 0, .attempt 2 (cutOff 5), .attempt 2 (cutOff 5)]

/-- The runs reach the end, and the table holds the last text. -/
theorem records_eq_sampleRuns :
    ∃ state : State Nat,
      Transition.Reachable (step [articles] sampleHistory)
        (Faithful sampleEmbed) { records := fun _ => none } state ∧
      sampleHistory.length ≤ state.position ∧
      state.records = Records.after (fun _ => none)
        (callBatch (steady sampleEmbed) [articles] sampleHistory) := by
  obtain ⟨state, reachable, complete⟩ := Transition.exists_reachable_of_run
    (Faithful sampleEmbed) sampleRuns
    (by
      intro before label member
      simp only [sampleRuns, List.mem_cons, List.not_mem_nil, or_false]
        at member
      rcases member with rfl | rfl | rfl | rfl | rfl | rfl <;>
        first | exact answers_cutOff _ | trivial)
    (show (Transition.run (step [articles] sampleHistory)
      { records := fun _ => none } sampleRuns).any
        (fun state => sampleHistory.length ≤ state.position) = true by decide)
  have complete := of_decide_eq_true complete
  exact ⟨state, reachable, complete,
    records_eq_of_complete sampleEmbed (by simp [sampleEmbed]) [articles]
      sampleHistory _ reachable complete⟩

end Recovery
end Sink
end Walkrie
