import Walkrie.Backfill.History

/-!
# The two ways a live event is handled

A live event is either dispatched, and then changes the sink as the sink plans
it, or merged into the staged row.  In both cases the image of the row it is
about keeps up with the history: if the image was ahead before the event, it
is ahead after it.
-/

namespace Walkrie
namespace Backfill

open Sink

/-! ## What the classification of an event says -/

/-- What is known of an event once its absorption is known. -/
def Absorption.Explains (mappings : List TableMapping) (event : ChangeEvent) :
    Absorption → Prop
  | .unrelated =>
      ∀ tm id, findMapping mappings tm.sourceTable = some tm → id ≠ "" →
        Concerns tm id event → event.op = .insert
  | .removes tm id =>
      findMapping mappings tm.sourceTable = some tm ∧ id ≠ "" ∧
        Concerns tm id event ∧ event.op = .delete
  | .merges tm id newRow =>
      findMapping mappings tm.sourceTable = some tm ∧ id ≠ "" ∧
        Concerns tm id event ∧ event.op = .update ∧
        event.newRow = some newRow

theorem absorption_explains
    (mappings : List TableMapping)
    (event : ChangeEvent) :
    (absorption mappings event).Explains mappings event := by
  unfold absorption
  -- An event that concerns a mapped row finds its mapping and names its id.
  split <;> rename_i kinds
  · intro tm id _ filled about
    have named := about.2
    unfold rowId at named
    cases op : event.op <;> simp_all
  cases found : findMapping mappings event.tableName with
  | none =>
      intro tm id mapped _ about
      rw [← about.1, found] at mapped
      cases mapped
  | some tm =>
      have table := findMapping_sourceTable found
      have known : ∀ other, findMapping mappings other.sourceTable =
          some other → event.tableName = other.sourceTable → other = tm := by
        intro other mapped same
        rw [← same, found] at mapped
        exact (Option.some.inj mapped).symm
      simp only
      split <;> rename_i op
      · cases old : event.oldRow with
        | none =>
            intro other id mapped filled about
            exact absurd (about.2.symm.trans (by simp [rowId, op, old])) filled
        | some oldRow =>
            simp only
            split <;> rename_i blank
            · intro other id mapped filled about
              cases known other mapped about.1
              exact absurd
                (about.2.symm.trans (by simp [rowId, op, old, blank])) filled
            · exact ⟨by rw [table]; exact found, blank, ⟨table.symm, by
                simp [rowId, op, old]⟩, op⟩
      · have update : event.op = .update := by
          cases op : event.op <;> simp_all
        cases new : event.newRow with
        | none =>
            intro other id mapped filled about
            exact absurd
              (about.2.symm.trans (by simp [rowId, update, new])) filled
        | some newRow =>
            simp only
            split <;> rename_i blank
            · intro other id mapped filled about
              cases known other mapped about.1
              exact absurd
                (about.2.symm.trans (by simp [rowId, update, new, blank]))
                filled
            · exact ⟨by rw [table]; exact found, blank, ⟨table.symm, by
                simp [rowId, update, new]⟩, update, new⟩

section Keys

variable {mappings : List TableMapping}
variable {tm other : TableMapping}
variable {id otherId : String}
variable {event : ChangeEvent}

/-- An event is about the rows of one mapping only. -/
theorem Concerns.mapping_eq
    (about : Concerns other otherId event)
    (known : findMapping mappings other.sourceTable = some other)
    (found : findMapping mappings tm.sourceTable = some tm)
    (same : Concerns tm id event) :
    other = tm := by
  rw [← about.1] at known
  rw [← same.1, known] at found
  exact Option.some.inj found

/-- An event is about one row only. -/
theorem Concerns.key_eq
    (about : Concerns other otherId event)
    (known : findMapping mappings other.sourceTable = some other)
    (found : findMapping mappings tm.sourceTable = some tm)
    (same : Concerns tm id event) :
    (other.sourceTable, otherId) = (tm.sourceTable, id) := by
  cases about.mapping_eq known found same
  rw [← about.2, ← same.2]

/-- The row an event is about is determined by its key in the store. -/
theorem Concerns.of_key
    (about : Concerns other otherId event)
    (known : findMapping mappings other.sourceTable = some other)
    (found : findMapping mappings tm.sourceTable = some tm)
    (same : (tm.sourceTable, id) = (other.sourceTable, otherId)) :
    Concerns tm id event := by
  obtain ⟨tables, rfl⟩ := Prod.mk.inj same
  rw [tables, known] at found
  cases found
  exact about

/-- An update of a mapped row is classified as one. -/
theorem absorption_of_update
    {tuple : DecodedRow}
    (found : findMapping mappings tm.sourceTable = some tm)
    (nonempty : id ≠ "")
    (about : Concerns tm id event)
    (op : event.op = .update)
    (new : event.newRow = some tuple) :
    absorption mappings event = .merges tm id tuple := by
  have explained := absorption_explains mappings event
  cases kind : absorption mappings event with
  | unrelated =>
      rw [kind] at explained
      have inserted := explained tm id found nonempty about
      rw [op] at inserted
      cases inserted
  | removes other otherId =>
      rw [kind] at explained
      have removed := explained.2.2.2
      rw [op] at removed
      cases removed
  | merges other otherId newRow =>
      rw [kind] at explained
      obtain ⟨known, _, same, _, shown⟩ := explained
      cases same.mapping_eq known found about
      rw [new] at shown
      cases shown
      rw [← about.2, same.2]

/-- An event about another row leaves this one as it is. -/
theorem lookup_absorbEvent_of_not_concerns
    {store : BackfillStore}
    (found : findMapping mappings tm.sourceTable = some tm)
    (unrelated : ¬Concerns tm id event) :
    (absorbEvent mappings store event).1.rows.lookup (tm.sourceTable, id) =
      store.rows.lookup (tm.sourceTable, id) := by
  have explained := absorption_explains mappings event
  unfold absorbEvent
  cases kind : absorption mappings event with
  | unrelated => rfl
  | removes mapped gone =>
      rw [kind] at explained
      obtain ⟨known, _, about, _⟩ := explained
      rw [BackfillStore.lookup_markDone, if_neg]
      exact fun same => unrelated (about.of_key known found same)
  | merges mapped merged newRow =>
      rw [kind] at explained
      obtain ⟨known, _, about, _⟩ := explained
      simp only
      cases store.getRowData mapped.sourceTable merged with
      | none => rfl
      | some existing =>
          simp only
          rw [BackfillStore.lookup_updateRowData, if_neg]
          exact fun same => unrelated (about.of_key known found same)

end Keys

/-! ## Dispatching -/

/-- What is known of a planned action that is no truncate. -/
theorem planEvent_eq_some
    {mappings : List TableMapping}
    {event : ChangeEvent}
    {action : BatchEvent}
    (planned : planEvent mappings event = some action)
    (single : event.op ≠ .truncate) :
    findMapping mappings event.tableName = some action.tm ∧
      action.kind ≠ .truncate ∧ action.idVal = rowId action.tm event := by
  obtain ⟨found, ways⟩ := planEvent_eq_some_iff.mp planned
  refine ⟨found, ?_⟩
  generalize action.tm = tm at ways ⊢
  cases ways with
  | upsert op prepared =>
      obtain ⟨newRow, new, _, _, _, rfl⟩ :=
        prepareUpsert_eq_some_iff.mp prepared
      rcases op with op | op
      · exact ⟨by simp, by simp [rowId, op, new]⟩
      · exact ⟨by simp, by simp [rowId, op, new]⟩
  | delete op old _ => exact ⟨by simp, by simp [rowId, op, old]⟩
  | truncate op => exact absurd op single

section Mapped

variable {mappings : List TableMapping}
variable {tm : TableMapping}
variable {id : String}
variable {event : ChangeEvent}

/-- An action planned for another row leaves this one alone. -/
theorem not_touches_of_not_concerns
    (found : findMapping mappings tm.sourceTable = some tm)
    (separate : Separate mappings)
    {action : BatchEvent}
    (planned : planEvent mappings event = some action)
    (single : event.op ≠ .truncate)
    (unrelated : ¬Concerns tm id event) :
    ¬action.Touches (tm.rowKey id) := by
  obtain ⟨mapped, kind, idVal⟩ := planEvent_eq_some planned single
  intro touches
  have keys : action.tm.rowKey action.idVal = tm.rowKey id := by
    unfold BatchEvent.Touches at touches
    cases shape : action.kind <;> simp_all
  obtain ⟨ids, discriminators⟩ := Prod.mk.inj keys
  have tables := separate _ (List.mem_of_find?_eq_some mapped) _
    (List.mem_of_find?_eq_some found) discriminators
  have table := findMapping_sourceTable mapped
  rw [← table, tables, found] at mapped
  cases mapped
  exact unrelated ⟨table.symm, idVal ▸ ids⟩

/-- Dispatching events about other rows leaves this one alone. -/
theorem performAll_plan_of_not_concerns
    (found : findMapping mappings tm.sourceTable = some tm)
    (separate : Separate mappings)
    {events : List ChangeEvent}
    (single : ∀ event ∈ events, event.op ≠ .truncate)
    (unrelated : ∀ event ∈ events, ¬Concerns tm id event)
    (content : Content) :
    content.performAll (plan mappings events) (tm.rowKey id) =
      content (tm.rowKey id) := by
  refine Content.performAll_of_not_touches ?_ content
  intro action member
  obtain ⟨event, among, planned⟩ := List.mem_filterMap.mp member
  exact not_touches_of_not_concerns found separate planned
    (single event among) (unrelated event among)

/-- Text of a sink row after an event about it has been dispatched.  An update
whose text was not sent, or shows the same text in the old tuple, is
skipped. -/
def dispatchedText (tm : TableMapping) (shown : Option String)
    (event : ChangeEvent) : Option String :=
  match event.op with
  | .insert =>
      if newText tm event = "" then shown else some (newText tm event)
  | .update =>
      if textUnsent tm event = true ∨
          (oldText tm event ≠ "" ∧ oldText tm event = newText tm event) ∨
          newText tm event = "" then shown
      else some (newText tm event)
  | .delete => none
  | .truncate | .commit => shown

/-- `prepare_upsert` skips an update exactly when its text was not sent or is
shown to be the old one. -/
theorem embedUnchanged_iff
    {newRow : DecodedRow}
    (new : event.newRow = some newRow) :
    embedUnchanged tm event newRow = true ↔
      textUnsent tm event = true ∨
        oldText tm event ≠ "" ∧ oldText tm event = newText tm event := by
  cases old : event.oldRow <;>
    simp [embedUnchanged, textUnsent, oldText, newText, new, old]

theorem plan_singleton
    (mappings : List TableMapping)
    (event : ChangeEvent) :
    plan mappings [event] = (planEvent mappings event).toList := by
  cases planned : planEvent mappings event <;> simp [plan, planned]

/-- What an insert or update writes of the row it is about. -/
theorem performAll_prepareUpsert
    {newRow : DecodedRow}
    (new : event.newRow = some newRow)
    (filled : newRow.getColumn tm.idSource ≠ "")
    (content : Content) :
    content.performAll (prepareUpsert tm event).toList
        (tm.rowKey (newRow.getColumn tm.idSource)) =
      if event.op = .update ∧ embedUnchanged tm event newRow ∨
          newText tm event = "" then
        content (tm.rowKey (newRow.getColumn tm.idSource))
      else some (newText tm event) := by
  have text : newText tm event = newRow.getColumn tm.embedSource := by
    simp [newText, new]
  simp only [prepareUpsert, new, filled, false_or, text]
  by_cases skipped : event.op = .update ∧ embedUnchanged tm event newRow
  · simp [skipped, Content.performAll]
  · by_cases blank : newRow.getColumn tm.embedSource = ""
    · simp [skipped, blank, Content.performAll]
    · simp [skipped, blank, Content.performAll, Content.perform,
        Content.upsert]

/-- Dispatching an event about a row changes the row as stated. -/
theorem performAll_plan_of_concerns
    (found : findMapping mappings tm.sourceTable = some tm)
    (filled : id ≠ "")
    (about : Concerns tm id event)
    (content : Content) :
    content.performAll (plan mappings [event]) (tm.rowKey id) =
      dispatchedText tm (content (tm.rowKey id)) event := by
  obtain ⟨table, named⟩ := about
  have mapped : mappings.find? (fun tm => tm.sourceTable = event.tableName) =
      some tm := by
    rw [table]
    exact found
  rw [plan_singleton]
  cases op : event.op with
  | insert | update =>
      cases new : event.newRow with
      | none =>
          exact absurd (named.symm.trans (by simp [rowId, op, new])) filled
      | some newRow =>
          have idVal : id = newRow.getColumn tm.idSource := by
            simpa [rowId, op, new] using named.symm
          subst idVal
          have planned : planEvent mappings event = prepareUpsert tm event := by
            simp [planEvent, op, mapped]
          rw [planned, performAll_prepareUpsert new filled]
          simp [dispatchedText, op, embedUnchanged_iff new, or_assoc]
  | delete =>
      cases old : event.oldRow with
      | none =>
          exact absurd (named.symm.trans (by simp [rowId, op, old])) filled
      | some oldRow =>
          have idVal : id = oldRow.getColumn tm.idSource := by
            simpa [rowId, op, old] using named.symm
          subst idVal
          simp [planEvent, op, mapped, old, filled, Content.performAll,
            Content.perform, Content.remove, dispatchedText]
  | truncate | commit =>
      exact absurd (named.symm.trans (by simp [rowId, op])) filled

/-- Dispatching an event keeps the sink ahead. -/
theorem Ahead.dispatch
    (found : findMapping mappings tm.sourceTable = some tm)
    (separate : Separate mappings)
    {current : Option String}
    {events : List ChangeEvent}
    {content : Content}
    (single : event.op ≠ .truncate)
    (described : Describes tm id current event)
    (ahead : Ahead tm id current (event :: events) (content (tm.rowKey id))) :
    Ahead tm id (textAfter tm id current event) events
      (content.performAll (plan mappings [event]) (tm.rowKey id)) := by
  by_cases about : Concerns tm id event
  · obtain ⟨filled, truth⟩ := described about
    rw [performAll_plan_of_concerns found filled about]
    have after := textAfter.eq_1 tm id current event
    rw [if_pos about] at after
    cases op : event.op with
    | insert =>
        simp only [op] at truth after
        simp only [dispatchedText, op, truth.2, if_false, after]
        exact ahead_now
    | update =>
        simp only [op] at truth after
        obtain ⟨sent, shown⟩ := truth
        by_cases unsent : textUnsent tm event = true
        · simp only [dispatchedText, op, unsent, true_or, if_true]
          exact ahead.of_same (by rw [after, if_pos unsent])
        · have text := sent.resolve_left unsent
          by_cases same : oldText tm event ≠ "" ∧
              oldText tm event = newText tm event
          · -- The sink skips the update, which does not change the text.
            simp only [dispatchedText, op]
            rw [if_pos (.inr (.inl same))]
            refine ahead.of_same ?_
            rw [after, if_neg unsent, ← same.2]
            exact (shown.resolve_left same.1).symm
          · simp only [dispatchedText, op, unsent, same, text, false_or, after]
            exact ahead_now
    | delete =>
        simp only [op] at after
        simp only [dispatchedText, op, after]
        exact ahead_now
    | truncate => exact absurd op single
    | commit =>
        simp only [op] at after
        simp only [dispatchedText, op]
        exact ahead.of_same after
  · rw [performAll_plan_of_not_concerns found separate
      (by simpa using single) (by simpa using about)]
    exact ahead.of_same (textAfter_of_not_concerns about)

/-! ## Merging -/

/-- A merge keeps the id of the staged row. -/
theorem columnText_mergeKnownColumns_id
    {newRow : DecodedRow}
    (filled : newRow.getColumn tm.idSource ≠ "")
    (existing : RowData) :
    columnText (mergeKnownColumns existing newRow tm) tm.idSource =
      newRow.getColumn tm.idSource := by
  simp [columnText, lookup_mergeKnownColumns, selectColumns,
    DecodedRow.known?_of_getColumn filled]

/-- Merging an update keeps the staged row ahead. -/
theorem Ahead.merge
    {current : Option String}
    {events : List ChangeEvent}
    {newRow : DecodedRow}
    {existing : RowData}
    (update : event.op = .update)
    (new : event.newRow = some newRow)
    (about : Concerns tm id event)
    (described : Describes tm id current event)
    (ahead : Ahead tm id current (event :: events)
      (some (columnText existing tm.embedSource))) :
    Ahead tm id (textAfter tm id current event) events
      (some (columnText (mergeKnownColumns existing newRow tm)
        tm.embedSource)) := by
  have truth := (described about).2
  simp only [update] at truth
  have after := textAfter.eq_1 tm id current event
  simp only [if_pos about, update] at after
  have lookup : (mergeKnownColumns existing newRow tm).lookup tm.embedSource =
      (newRow.known? tm.embedSource).or (existing.lookup tm.embedSource) := by
    simp [lookup_mergeKnownColumns, selectColumns]
  by_cases unsent : textUnsent tm event = true
  · -- The staged text survives, and the row's text does not change.
    have toast : newRow.isToast tm.embedSource = true := by
      simpa [textUnsent, new] using unsent
    rw [DecodedRow.known?_of_isToast toast, Option.none_or] at lookup
    rw [columnText, lookup]
    exact ahead.of_same (by rw [after, if_pos unsent])
  · have text : newRow.getColumn tm.embedSource ≠ "" := by
      simpa [newText, new] using truth.1.resolve_left unsent
    rw [DecodedRow.known?_of_getColumn text, Option.some_or] at lookup
    have shown : newText tm event = newRow.getColumn tm.embedSource := by
      simp [newText, new]
    rw [after, if_neg unsent, shown, columnText, lookup]
    exact ahead_now

end Mapped

end Backfill
end Walkrie
