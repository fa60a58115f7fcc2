import Walkrie.Event

/-!
# What an embedding sink plans for a batch

The first pass of `call_batch` validates every event and records what has to
happen, in event order, without writing.  The three embedding sinks share it;
they differ in how a planned action is written.
-/

namespace Walkrie
namespace Sink

/-- The three kinds of write an embedding sink performs. -/
inductive Kind
  | upsert
  | delete
  | truncate
  deriving DecidableEq

/-- One planned action.  Text and metadata are only meaningful for upserts. -/
structure BatchEvent where
  kind : Kind := .upsert
  tm : TableMapping
  idVal : String := ""
  embedVal : String := ""
  metaVals : List String := []
  deriving DecidableEq

/-- The update leaves the embed column as it was: it was sent as
unchanged-toast, or the old row shows the same non-empty text. -/
def embedUnchanged
    (tm : TableMapping)
    (event : ChangeEvent)
    (newRow : DecodedRow) : Bool :=
  newRow.isToast tm.embedSource ||
    match event.oldRow with
    | none => false
    | some oldRow =>
        let oldVal := oldRow.getColumn tm.embedSource
        oldVal != "" && oldVal == newRow.getColumn tm.embedSource

/-- `prepare_upsert`: the upsert an insert or update asks for, if any. -/
def prepareUpsert (tm : TableMapping) (event : ChangeEvent) :
    Option BatchEvent :=
  match event.newRow with
  | none => none
  | some newRow =>
      let idVal := newRow.getColumn tm.idSource
      let embedVal := newRow.getColumn tm.embedSource
      if event.op = .update ∧ embedUnchanged tm event newRow then none
      else if idVal = "" ∨ embedVal = "" then none
      else
        some {
          kind := .upsert
          tm
          idVal
          embedVal
          metaVals := tm.metadataSources.map newRow.getColumn }

/-- One turn of the first loop of `call_batch`. -/
def planEvent (mappings : List TableMapping) (event : ChangeEvent) :
    Option BatchEvent :=
  if event.op = .commit then none
  else
    match mappings.find? fun tm => tm.sourceTable = event.tableName with
    | none => none
    | some tm =>
        match event.op with
        | .insert | .update => prepareUpsert tm event
        | .delete =>
            match event.oldRow with
            | none => none
            | some oldRow =>
                let idVal := oldRow.getColumn tm.idSource
                if idVal = "" then none
                else some { kind := .delete, tm, idVal }
        | .truncate => some { kind := .truncate, tm }
        | .commit => none

/-- The planned actions of a batch, in event order. -/
def plan (mappings : List TableMapping) (events : List ChangeEvent) :
    List BatchEvent :=
  events.filterMap (planEvent mappings)

/-- The text a planned action needs a vector for. -/
def BatchEvent.text? (action : BatchEvent) : Option String :=
  match action.kind with
  | .upsert => some action.embedVal
  | .delete | .truncate => none

/-- Texts handed to `embed_batch`, in plan order. -/
def textsToEmbed (batch : List BatchEvent) : List String :=
  batch.filterMap BatchEvent.text?

/-! ## What a planned action comes from -/

/-- An upsert shows the new tuple, whose id and text are not empty. -/
theorem prepareUpsert_eq_some_iff
    {tm : TableMapping}
    {event : ChangeEvent}
    {action : BatchEvent} :
    prepareUpsert tm event = some action ↔
      ∃ newRow, event.newRow = some newRow ∧
        ¬(event.op = .update ∧ embedUnchanged tm event newRow = true) ∧
        newRow.getColumn tm.idSource ≠ "" ∧
        newRow.getColumn tm.embedSource ≠ "" ∧
        action =
          { kind := .upsert
            tm
            idVal := newRow.getColumn tm.idSource
            embedVal := newRow.getColumn tm.embedSource
            metaVals := tm.metadataSources.map newRow.getColumn } := by
  unfold prepareUpsert
  cases event.newRow with
  | none => simp
  | some newRow =>
      simp only [Option.ite_none_left_eq_some, not_or, Option.some_inj,
        exists_eq_left', and_assoc, @eq_comm _ _ action]

/-- Inserts and updates are planned by their mapping. -/
theorem planEvent_eq_prepareUpsert
    {mappings : List TableMapping}
    {event : ChangeEvent}
    {tm : TableMapping}
    (found : mappings.find? (fun tm => tm.sourceTable = event.tableName) =
      some tm)
    (op : event.op = .insert ∨ event.op = .update) :
    planEvent mappings event = prepareUpsert tm event := by
  unfold planEvent
  rw [found]
  rcases op with op | op
  · simp [op]
  · simp [op]

/-- The ways an event of a mapped table is planned. -/
inductive Planned (tm : TableMapping) (event : ChangeEvent) :
    BatchEvent → Prop
  | upsert
      {action : BatchEvent}
      (op : event.op = .insert ∨ event.op = .update)
      (prepared : prepareUpsert tm event = some action) :
      Planned tm event action
  | delete
      {oldRow : DecodedRow}
      (op : event.op = .delete)
      (old : event.oldRow = some oldRow)
      (named : oldRow.getColumn tm.idSource ≠ "") :
      Planned tm event
        { kind := .delete, tm, idVal := oldRow.getColumn tm.idSource }
  | truncate
      (op : event.op = .truncate) :
      Planned tm event { kind := .truncate, tm }

theorem Planned.tm_eq
    {tm : TableMapping}
    {event : ChangeEvent}
    {action : BatchEvent}
    (planned : Planned tm event action) :
    action.tm = tm := by
  cases planned with
  | upsert op prepared =>
      obtain ⟨_, _, _, _, _, rfl⟩ := prepareUpsert_eq_some_iff.mp prepared
      rfl
  | delete | truncate => rfl

theorem planEvent_eq_some_iff
    {mappings : List TableMapping}
    {event : ChangeEvent}
    {action : BatchEvent} :
    planEvent mappings event = some action ↔
      mappings.find? (fun tm => tm.sourceTable = event.tableName) =
          some action.tm ∧ Planned action.tm event action := by
  constructor
  · intro planned
    unfold planEvent at planned
    split at planned
    · cases planned
    split at planned <;> rename_i found
    · cases planned
    rename_i tm
    have ways : Planned tm event action := by
      cases op : event.op with
      | insert => exact .upsert (.inl op) (by simpa [op] using planned)
      | update => exact .upsert (.inr op) (by simpa [op] using planned)
      | delete =>
          simp only [op] at planned
          cases old : event.oldRow with
          | none => simp [old] at planned
          | some oldRow =>
              simp only [old, Option.ite_none_left_eq_some,
                Option.some_inj] at planned
              obtain ⟨named, rfl⟩ := planned
              exact .delete op old named
      | truncate =>
          simp only [op, Option.some_inj] at planned
          subst planned
          exact .truncate op
      | commit => simp [op] at planned
    rw [ways.tm_eq]
    exact ⟨found, ways⟩
  · rintro ⟨found, ways⟩
    generalize action.tm = tm at found ways
    cases ways with
    | upsert op prepared =>
        rw [planEvent_eq_prepareUpsert found op]
        exact prepared
    | delete op old named => simp [planEvent, found, op, old, named]
    | truncate op => simp [planEvent, found, op]

end Sink
end Walkrie
