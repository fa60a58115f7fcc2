import Walkrie.Backfill.Worker
import Walkrie.Sink.Content

/-!
# The text of a source row over time

What backfill is for is stated over the text one row has at each point of the
history of its table.  A dump takes place at some point of the history, which
is then replayed from the start, so an image of a row may be newer than the
events still to come.  The value such an image holds is then one the row has
now or will have later, and both ways of handling an event keep it so.
-/

namespace Walkrie
namespace Backfill

/-- Id of the row an event is about; empty when it is about no single row. -/
def rowId (tm : TableMapping) (event : ChangeEvent) : String :=
  match event.op with
  | .insert | .update =>
      (event.newRow.map fun row => row.getColumn tm.idSource).getD ""
  | .delete => (event.oldRow.map fun row => row.getColumn tm.idSource).getD ""
  | .truncate | .commit => ""

/-- Text of the embed column in the new tuple. -/
def newText (tm : TableMapping) (event : ChangeEvent) : String :=
  (event.newRow.map fun row => row.getColumn tm.embedSource).getD ""

/-- Text of the embed column in the old tuple, as far as it was sent. -/
def oldText (tm : TableMapping) (event : ChangeEvent) : String :=
  (event.oldRow.map fun row => row.getColumn tm.embedSource).getD ""

/-- The new tuple leaves out the embed column as unchanged. -/
def textUnsent (tm : TableMapping) (event : ChangeEvent) : Bool :=
  event.newRow.any fun row => row.isToast tm.embedSource

/-- The event is about the row with this id of the mapped table. -/
def Concerns (tm : TableMapping) (id : String) (event : ChangeEvent) : Prop :=
  event.tableName = tm.sourceTable ∧ rowId tm event = id

instance (tm : TableMapping) (id : String) (event : ChangeEvent) :
    Decidable (Concerns tm id event) :=
  inferInstanceAs (Decidable (_ ∧ _))

/-- Text of a row after an event, given its text before; `none` when there is
no such row. -/
def textAfter (tm : TableMapping) (id : String) (current : Option String)
    (event : ChangeEvent) : Option String :=
  if Concerns tm id event then
    match event.op with
    | .insert => some (newText tm event)
    | .update =>
        if textUnsent tm event then current else some (newText tm event)
    | .delete => none
    | .truncate | .commit => current
  else current

/-- The event tells the truth about a row with this text: an inserted row is
new, texts are not empty, and an old text that was sent is the present one. -/
def Describes (tm : TableMapping) (id : String) (current : Option String)
    (event : ChangeEvent) : Prop :=
  Concerns tm id event →
    id ≠ "" ∧
      match event.op with
      | .insert => current = none ∧ newText tm event ≠ ""
      | .update =>
          (textUnsent tm event = true ∨ newText tm event ≠ "") ∧
            (oldText tm event = "" ∨ current = some (oldText tm event))
      | .delete | .truncate | .commit => True

/-- Every event of the list tells the truth about the row. -/
def Truthful (tm : TableMapping) (id : String) :
    Option String → List ChangeEvent → Prop
  | _, [] => True
  | current, event :: events =>
      Describes tm id current event ∧
        Truthful tm id (textAfter tm id current event) events

/-- The value is the row's text now or after some of the events to come. -/
def Ahead (tm : TableMapping) (id : String) :
    Option String → List ChangeEvent → Option String → Prop
  | current, [], value => value = current
  | current, event :: events, value =>
      value = current ∨ Ahead tm id (textAfter tm id current event) events value

variable {tm : TableMapping}
variable {id : String}
variable {current value : Option String}
variable {event : ChangeEvent}
variable {events : List ChangeEvent}

theorem textAfter_of_not_concerns
    (unrelated : ¬Concerns tm id event) :
    textAfter tm id current event = current :=
  if_neg unrelated

theorem ahead_now : Ahead tm id current events current := by
  cases events with
  | nil => rfl
  | cons event events => exact .inl rfl

/-- The text after any number of events is ahead. -/
theorem ahead_take
    (count : Nat) :
    Ahead tm id current events
      ((events.take count).foldl (textAfter tm id) current) := by
  induction events generalizing current count with
  | nil => simp [Ahead]
  | cons event events inductionHypothesis =>
      cases count with
      | zero => exact .inl rfl
      | succ count => exact .inr (inductionHypothesis count)

/-- An event that leaves the text alone leaves every value ahead. -/
theorem Ahead.of_same
    (ahead : Ahead tm id current (event :: events) value)
    (same : textAfter tm id current event = current) :
    Ahead tm id (textAfter tm id current event) events value := by
  rcases ahead with now | later
  · rw [now, same]
    exact ahead_now
  · exact later

/-- An id no event is about keeps its text. -/
theorem foldl_textAfter_of_not_concerns
    (unrelated : ∀ event ∈ events, ¬Concerns tm id event) :
    events.foldl (textAfter tm id) current = current := by
  induction events with
  | nil => rfl
  | cons event events inductionHypothesis =>
      rw [List.forall_mem_cons] at unrelated
      rw [List.foldl_cons, textAfter_of_not_concerns unrelated.1,
        inductionHypothesis unrelated.2]

/-- Texts stay non-empty along a truthful history. -/
theorem Ahead.ne_empty
    (ahead : Ahead tm id current events value)
    (truthful : Truthful tm id current events)
    (filled : ∀ text ∈ current, text ≠ "") :
    ∀ text ∈ value, text ≠ "" := by
  induction events generalizing current with
  | nil =>
      rw [show value = current from ahead]
      exact filled
  | cons event events inductionHypothesis =>
      rcases ahead with now | later
      · rw [now]
        exact filled
      refine inductionHypothesis later truthful.2 ?_
      intro text after
      unfold textAfter at after
      split at after <;> rename_i about
      · have described := (truthful.1 about).2
        split at after <;> rename_i op <;> simp only [op] at described
        · cases after
          exact described.2
        · split at after <;> rename_i unsent
          · exact filled text after
          · cases after
            exact described.1.resolve_left unsent
        · cases after
        · exact filled text after
        · exact filled text after
      · exact filled text after

/-! ## A sample table -/

/-- A table of notes with an id and a body to embed. -/
def notes : TableMapping :=
  TableMapping.resolveColumns
    { sourceTable := "notes"
      columns := [⟨"id", "note_id", "id"⟩, ⟨"body", "text", "embed"⟩] }

def noteRow (id body : String) : SourceRow :=
  fun column =>
    if column = "id" then some id
    else if column = "body" then some body
    else none

def noteTuple (kind : TupleKind) (id body : String) : DecodedRow :=
  { tableName := "notes"
    kind
    columns :=
      [{ name := "id", textValue := id }, { name := "body", textValue := body }]
  }

def noteInsert (id body : String) : ChangeEvent :=
  { op := .insert
    tableName := "notes"
    newRow := some (noteTuple .insert id body) }

def noteUpdate (id body : String) : ChangeEvent :=
  { op := .update
    tableName := "notes"
    newRow := some (noteTuple .updateNew id body) }

/-- Of the old row only the key is sent. -/
def noteDelete (id : String) : ChangeEvent :=
  { op := .delete
    tableName := "notes"
    oldRow := some
      { tableName := "notes"
        kind := .delete
        columns :=
          [{ name := "id", textValue := id }, { name := "body", isNull := true }]
      } }

end Backfill
end Walkrie
