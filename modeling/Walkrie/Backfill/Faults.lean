import Walkrie.Backfill.Race
import Walkrie.Backfill.Sharing

/-!
# Store failures while events are absorbed

`drain_available_messages` offers every decoded event to the store before it
hands it to the dispatcher.  When a statement of the store, the parsing of a
stored row or `dump()` of the merged one throws, the handler meant for decode
errors catches the exception: it logs, drops the rest of the message and goes
on with the next one.  A step is one statement, and other processes may execute
statements in between.
-/

namespace Walkrie
namespace Backfill
namespace Faults

open Transition

/-- An `XLogData` message with the events decoded from it. -/
structure Message where
  walStart : Nat
  events : List ChangeEvent

/-- The events as they are handled: each carries the position of its
message. -/
def Message.stamped (message : Message) : List ChangeEvent :=
  message.events.map fun event => { event with commitLsn := message.walStart }

/-- What became of a decoded event. -/
inductive Fate
  /-- Handed to the dispatcher. -/
  | handed
  /-- Merged, with what `update_row_data` returned. -/
  | merged (changed : Bool)
  /-- Dropped by the handler. -/
  | swallowed
  deriving DecidableEq

/-- An update between `get_row_data` and `update_row_data`. -/
structure Merge where
  event : ChangeEvent
  tm : TableMapping
  rowId : String
  newRow : DecodedRow
  existing : RowData

/-- The store, the messages to come, the rest of the message at hand, and what
became of the events so far, in the order in which it happened. -/
structure State where
  store : BackfillStore
  messages : List Message
  pending : List ChangeEvent := []
  merging : Option Merge := none
  trace : List (ChangeEvent × Fate) := []

inductive Label
  /-- The next message is decoded. -/
  | receive
  /-- The next event of the message, up to and including its first
  statement. -/
  | next
  /-- `update_row_data` of the update that is being merged. -/
  | write
  /-- The statement at hand throws, the stored row does not parse, or `dump()`
  throws because the merged row has a text that is not UTF-8. -/
  | throw
  /-- A statement of another process. -/
  | elsewhere (statement : Statement)

def State.record (state : State) (event : ChangeEvent) (fate : Fate) : State :=
  { state with trace := state.trace ++ [(event, fate)] }

/-- The handler: the event and the rest of its message are dropped. -/
def State.swallow (state : State) (event : ChangeEvent) : State :=
  { state with
    pending := []
    merging := none
    trace := state.trace ++
      (event :: state.pending).map fun dropped => (dropped, .swallowed) }

/-- `absorb_event` up to and including its first statement, and `handle_` if
that decides the matter. -/
def State.offer (mappings : List TableMapping) (state : State)
    (event : ChangeEvent) : State :=
  match absorption mappings event with
  | .unrelated => state.record event .handed
  | .removes tm rowId =>
      { state with
        store := state.store.markDone tm.sourceTable rowId }.record event
          .handed
  | .merges tm rowId newRow =>
      match state.store.getRowData tm.sourceTable rowId with
      | none => state.record event .handed
      | some existing =>
          { state with
            merging := some { event, tm, rowId, newRow, existing } }

/-- The rest of `absorb_event`. -/
def State.finish (state : State) (merge : Merge) : State :=
  let (store, changed) :=
    state.store.updateRowData merge.tm.sourceTable merge.rowId
      (mergeKnownColumns merge.existing merge.newRow merge.tm)
  { state with store, merging := none }.record merge.event (.merged changed)

def step (mappings : List TableMapping) (state : State) :
    Label → Option State
  | .receive =>
      match state.merging, state.pending, state.messages with
      | none, [], message :: messages =>
          some { state with pending := message.stamped, messages }
      | _, _, _ => none
  | .next =>
      match state.merging, state.pending with
      | none, event :: pending =>
          some (({ state with pending } : State).offer mappings event)
      | _, _ => none
  | .write => state.merging.map state.finish
  | .throw =>
      match state.merging, state.pending with
      | some merge, _ => some (state.swallow merge.event)
      | none, [] => none
      | none, event :: pending =>
          -- Only an update or a delete of a mapped row reaches a statement.
          if absorption mappings event = .unrelated then none
          else some (({ state with pending } : State).swallow event)
  | .elsewhere statement =>
      (execute state.store statement).map fun store => { state with store }

/-- Taken without a pause, the steps of an event are `absorb_event`, and
`handle_` unless the event was absorbed. -/
theorem run_absorbed
    (mappings : List TableMapping)
    (state : State)
    (event : ChangeEvent)
    (pending : List ChangeEvent)
    (idle : state.merging = none)
    (arrived : state.pending = event :: pending) :
    let (store, absorbed) := absorbEvent mappings state.store event
    run (step mappings) state (if absorbed then [.next, .write] else [.next]) =
      some { state with
        store
        pending
        trace := state.trace ++
          [(event, if absorbed then .merged true else .handed)] } := by
  unfold absorbEvent
  cases kind : absorption mappings event with
  | unrelated => simp [run, step, idle, arrived, State.offer, kind, State.record]
  | removes tm rowId =>
      simp [run, step, idle, arrived, State.offer, kind, State.record]
  | merges tm rowId newRow =>
      cases found : state.store.getRowData tm.sourceTable rowId with
      | none =>
          simp [run, step, idle, arrived, State.offer, kind, found,
            State.record]
      | some existing =>
          obtain ⟨stored, present, _⟩ := Option.map_eq_some_iff.mp found
          simp [run, step, idle, arrived, State.offer, kind, found,
            State.record, State.finish, BackfillStore.updateRowData, present]

/-! ## Events and their commit -/

/-- The event was handed to the dispatcher, or merged into a row that was
there. -/
def Fate.Kept (fate : Fate) : Prop :=
  fate = .handed ∨ fate = .merged true

/-- When a commit is handed to the dispatcher, every event of its transaction
has been kept. -/
def KeptBeforeCommit (trace : List (ChangeEvent × Fate)) : Prop :=
  ∀ earlier transaction later marker,
    trace = earlier ++ transaction ++ (marker, .handed) :: later →
    marker.op = .commit →
    (∀ entry ∈ transaction, entry.1.op ≠ .commit) →
      ∀ entry ∈ transaction, entry.2.Kept

/-- Nothing throws, and no other process deletes the row an update is being
merged into. -/
def Faultless (state : State) : Label → Prop
  | .throw => False
  | .write =>
      ∀ merge ∈ state.merging,
        state.store.rows.lookup (merge.tm.sourceTable, merge.rowId) ≠ none
  | .receive | .next | .elsewhere _ => True

instance (state : State) : (label : Label) → Decidable (Faultless state label)
  | .throw => inferInstanceAs (Decidable False)
  | .write => inferInstanceAs (Decidable (∀ merge ∈ state.merging, _))
  | .receive | .next | .elsewhere _ => inferInstanceAs (Decidable True)

/-- What a step adds to the trace.  Every step that is not faultless loses an
event, and no other does. -/
theorem step_trace
    {mappings : List TableMapping}
    {state next : State}
    {label : Label}
    (taken : step mappings state label = some next) :
    ∃ entries, next.trace = state.trace ++ entries ∧
      (Faultless state label ↔ ∀ entry ∈ entries, entry.2.Kept) := by
  cases label with
  | receive =>
      simp only [step] at taken
      split at taken
      · cases taken
        exact ⟨[], (List.append_nil _).symm, by simp [Faultless]⟩
      · cases taken
  | next =>
      simp only [step] at taken
      split at taken
      · cases taken
        unfold State.offer
        split
        · exact ⟨_, rfl, by simp [Faultless, Fate.Kept]⟩
        · exact ⟨_, rfl, by simp [Faultless, Fate.Kept]⟩
        · split
          · exact ⟨_, rfl, by simp [Faultless, Fate.Kept]⟩
          · exact ⟨[], (List.append_nil _).symm, by simp [Faultless]⟩
      · cases taken
  | write =>
      obtain ⟨merge, merging, rfl⟩ := Option.map_eq_some_iff.mp taken
      refine ⟨_, rfl, ?_⟩
      simp [Faultless, merging, Fate.Kept, Option.isSome_iff_ne_none]
  | throw =>
      simp only [step] at taken
      split at taken
      · cases taken
        exact ⟨_, rfl, by simp [Faultless, Fate.Kept]⟩
      · cases taken
      · split at taken
        · cases taken
        · cases taken
          exact ⟨_, rfl, by simp [Faultless, Fate.Kept]⟩
  | elsewhere statement =>
      obtain ⟨store, _, rfl⟩ := Option.map_eq_some_iff.mp taken
      exact ⟨[], (List.append_nil _).symm, by simp [Faultless]⟩

/-- Whatever failed before, from a state on from which nothing fails every
event is kept before the commit of its transaction. -/
theorem keptBeforeCommit_of_reachable
    (mappings : List TableMapping)
    (start state : State)
    (reachable : Reachable (step mappings) Faultless start state) :
    ∃ recent, state.trace = start.trace ++ recent ∧ KeptBeforeCommit recent := by
  have kept : ∃ recent, state.trace = start.trace ++ recent ∧
      ∀ entry ∈ recent, entry.2.Kept := by
    refine reachable.invariant
      (fun state => ∃ recent, state.trace = start.trace ++ recent ∧
        ∀ entry ∈ recent, entry.2.Kept) ⟨[], by simp⟩ ?_
    rintro before label after ⟨recent, trace, kept⟩ faultless taken
    obtain ⟨entries, grown, exactly⟩ := step_trace taken
    refine ⟨recent ++ entries, ?_, ?_⟩
    · rw [grown, trace, List.append_assoc]
    · rw [List.forall_mem_append]
      exact ⟨kept, exactly.mp faultless⟩
  obtain ⟨recent, trace, kept⟩ := kept
  refine ⟨recent, trace, ?_⟩
  rintro earlier transaction later marker rfl _ _ entry member
  exact kept entry (by simp [member])

/-! ## An update of a staged note -/

/-- A transaction that updates the note. -/
def noteMessages : List Message :=
  [⟨10, [noteUpdate "1" "new"]⟩, ⟨20, [{ op := .commit }]⟩]

/-- The note is staged and the transaction is to come. -/
def noteStart : State :=
  { store := stagedNotes [noteRow "1" "old"], messages := noteMessages }

/-- What became of the update, once the commit has been handed over. -/
def noteTrace (fate : Fate) : List (ChangeEvent × Fate) :=
  [({ noteUpdate "1" "new" with commitLsn := 10 }, fate),
    ({ op := .commit, commitLsn := 20 }, .handed)]

/-- No statement fails. -/
def mergedRun : List Label := [.receive, .next, .write, .receive, .next]

/-- `get_row_data` throws. -/
def throwingRun : List Label := [.receive, .throw, .receive, .next]

/-- Without a failure the update is merged. -/
theorem keptBeforeCommit_mergedRun :
    ∃ state,
      Reachable (step [notes]) Faultless noteStart state ∧
      state.trace = noteTrace (.merged true) ∧
      ∃ recent, state.trace = noteStart.trace ++ recent ∧
        KeptBeforeCommit recent := by
  obtain ⟨state, reachable, final⟩ := exists_reachable_of_guarded Faultless
    mergedRun
    (show (run (guarded (step [notes]) Faultless) noteStart mergedRun).any
      (fun state => state.trace = noteTrace (.merged true)) = true by decide)
  exact ⟨state, reachable, of_decide_eq_true final,
    keptBeforeCommit_of_reachable [notes] noteStart state reachable⟩

/-- An update whose statement throws is swallowed, and the commit is handed
over all the same. -/
theorem not_keptBeforeCommit_throwingRun :
    ¬∀ (mappings : List TableMapping) (start state : State),
      start.trace = [] →
      Reachable (step mappings) (fun _ _ => True) start state →
        KeptBeforeCommit state.trace := by
  intro claim
  obtain ⟨state, reachable, final⟩ := exists_reachable_of_run
    (fun _ _ => True) throwingRun (fun _ _ _ => trivial)
    (show (run (step [notes]) noteStart throwingRun).any
      (fun state => state.trace = noteTrace .swallowed) = true by decide)
  have trace := of_decide_eq_true final
  have kept := claim [notes] noteStart state rfl reachable [] [_] [] _ trace
    rfl (by simp [noteUpdate]) _ List.mem_cons_self
  rcases kept with handed | merged
  · cases handed
  · cases merged

end Faults
end Backfill
end Walkrie
