import Walkrie.Sink.Records

/-!
# Live changes of one source table

The source table is taken as the embedded text of every id.  Changes of its
rows reach the sink as events, whose tuples show as much as the replica
identity of the table asks for.  The sink skips an update that leaves the text
as it was, which is harmless as long as ids do not change.
-/

namespace Walkrie
namespace Sink
namespace Live

variable {φ : Type}

/-- The embedded text of every row of the source table, by id. -/
abbrev Texts := String → Option String

/-- What happens to one row of the table, or to all of them.  A commit changes
nothing. -/
inductive Change
  | insert (id text : String)
  | update (id newId text : String)
  | delete (id : String)
  | truncate
  | commit

namespace Change

def apply (table : Texts) : Change → Texts
  | insert id text => Function.update table id (some text)
  | update id newId text =>
      Function.update (Function.update table id none) newId (some text)
  | delete id => Function.update table id none
  | truncate => fun _ => none
  | commit => table

/-- Ids are unique in the table, and ids and texts are not empty. -/
def Possible (table : Texts) : Change → Prop
  | insert id text => table id = none ∧ id ≠ "" ∧ text ≠ ""
  | update id newId text =>
      table id ≠ none ∧ (newId = id ∨ table newId = none) ∧
        newId ≠ "" ∧ text ≠ ""
  | delete id => table id ≠ none ∧ id ≠ ""
  | truncate => True
  | commit => True

instance (table : Texts) : (change : Change) →
    Decidable (change.Possible table)
  | insert _ _ => inferInstanceAs (Decidable (_ ∧ _ ∧ _))
  | update _ _ _ => inferInstanceAs (Decidable (_ ∧ _ ∧ _ ∧ _))
  | delete _ => inferInstanceAs (Decidable (_ ∧ _))
  | truncate => .isTrue trivial
  | commit => .isTrue trivial

/-- No row gets another id. -/
def KeepsId : Change → Prop
  | update id newId _ => newId = id
  | _ => True

/-- The sink writes the row of an id because of the change, unless it skips
the update. -/
def Rewrites (skipped : Bool) (id : String) : Change → Prop
  | insert other _ => other = id
  | update _ newId _ => skipped = false ∧ newId = id
  | delete other => other = id
  | truncate => True
  | commit => False

/-- The table changes at an id and the sink does not write the row: another id
is taken up, or the id is taken up by an update that is skipped. -/
def Disturbs (skipped : Bool) (id : String) : Change → Prop
  | update old newId _ =>
      newId ≠ old ∧ (old = id ∨ skipped = true ∧ newId = id)
  | _ => False

end Change

/-! ## Events -/

/-- Which old tuples the server sends. -/
inductive ReplicaIdentity
  | default
  | full
  deriving DecidableEq

/-- An old tuple shows the id, and with it the text or, under the default
identity, possibly nothing else. -/
def OldTuple (identity : ReplicaIdentity) (tm : TableMapping)
    (id text : String) (row : DecodedRow) : Prop :=
  row.getColumn tm.idSource = id ∧
    (row.getColumn tm.embedSource = text ∨
      identity = .default ∧ row.getColumn tm.embedSource = "")

/-- A new tuple shows the id, and the text unless it is toasted and did not
change. -/
def NewTuple (tm : TableMapping) (before : Option String)
    (id text : String) (row : DecodedRow) : Prop :=
  row.getColumn tm.idSource = id ∧
    (row.isToast tm.embedSource = false ∧
        row.getColumn tm.embedSource = text ∨
      row.isToast tm.embedSource = true ∧ before = some text)

/-- The old tuple is left out only under the default identity, and only if the
key did not change. -/
def OldRow (identity : ReplicaIdentity) (tm : TableMapping)
    (id newId text : String) : Option DecodedRow → Prop
  | none => identity = .default ∧ newId = id
  | some row => OldTuple identity tm id text row

/-- The event sent for a change of the table. -/
def Sent (identity : ReplicaIdentity) (tm : TableMapping) (table : Texts)
    (event : ChangeEvent) : Change → Prop
  | .insert id text =>
      event.op = .insert ∧ event.tableName = tm.sourceTable ∧
        ∃ row ∈ event.newRow, NewTuple tm none id text row
  | .update id newId text =>
      event.op = .update ∧ event.tableName = tm.sourceTable ∧
        (∃ row ∈ event.newRow, NewTuple tm (table id) newId text row) ∧
        ∃ before ∈ table id, OldRow identity tm id newId before event.oldRow
  | .delete id =>
      event.op = .delete ∧ event.tableName = tm.sourceTable ∧
        ∃ row ∈ event.oldRow, ∃ before ∈ table id,
          OldTuple identity tm id before row
  | .truncate => event.op = .truncate ∧ event.tableName = tm.sourceTable
  | .commit => event.op = .commit

/-- A history of the table together with the events sent for it. -/
def Follows (tm : TableMapping) : Texts → List (Change × ChangeEvent) → Prop
  | _, [] => True
  | table, (change, event) :: history =>
      change.Possible table ∧
        (∃ identity, Sent identity tm table event change) ∧
        Follows tm (change.apply table) history

/-- The table at the end of a history. -/
def tableAfter (table : Texts) (history : List (Change × ChangeEvent)) :
    Texts :=
  history.foldl (fun table entry => entry.1.apply table) table

/-- The first check of `prepare_upsert` drops the update. -/
def skips (tm : TableMapping) (event : ChangeEvent) : Bool :=
  event.newRow.any (embedUnchanged tm event)

/-! ## What the sink plans -/

section Steps

variable {mappings : List TableMapping}
variable {tm : TableMapping}
variable {table : Texts}
variable {change : Change}
variable {event : ChangeEvent}
variable {identity : ReplicaIdentity}

/-- The action planned for a change. -/
def Asks (tm : TableMapping) (skipped : Bool) (planned : Option BatchEvent) :
    Change → Prop
  | .insert id text =>
      ∃ metaVals, planned = some { tm, idVal := id, embedVal := text, metaVals }
  | .update _ newId text =>
      if skipped then planned = none
      else ∃ metaVals,
        planned = some { tm, idVal := newId, embedVal := text, metaVals }
  | .delete id => planned = some { kind := .delete, tm, idVal := id }
  | .truncate => planned = some { kind := .truncate, tm }
  | .commit => planned = none

theorem Asks.tm_eq
    {skipped : Bool}
    {action : BatchEvent}
    (asks : Asks tm skipped (some action) change) :
    action.tm = tm := by
  cases change with
  | insert id text =>
      obtain ⟨metaVals, same⟩ := asks
      cases same
      rfl
  | update id newId text =>
      cases skipped with
      | true => cases asks
      | false =>
          obtain ⟨metaVals, same⟩ := asks
          cases same
          rfl
  | delete id =>
      cases asks
      rfl
  | truncate =>
      cases asks
      rfl
  | commit => cases asks

/-- An update that is skipped left the text as it was. -/
theorem text_eq_of_skips
    {id newId text : String}
    (sent : Sent identity tm table event (.update id newId text))
    (skipped : skips tm event = true) :
    table id = some text := by
  obtain ⟨_, _, ⟨row, present, _, shown⟩, before, held, old⟩ := sent
  rcases shown with ⟨visible, new⟩ | ⟨_, same⟩
  · -- The old tuple shows the same text.
    rw [skips, Option.mem_def.mp present, Option.any_some, embedUnchanged,
      visible, Bool.false_or] at skipped
    cases previous : event.oldRow with
    | none => simp [previous] at skipped
    | some oldRow =>
        simp only [previous, Bool.and_eq_true, bne_iff_ne, ne_eq,
          beq_iff_eq] at skipped
        rw [previous] at old
        rcases old.2 with full | ⟨_, blank⟩
        · rw [Option.mem_def.mp held, ← full, skipped.2, new]
        · exact absurd blank skipped.1
  · exact same

theorem planEvent_sent
    (mapped : mappings.find? (fun other =>
      other.sourceTable = tm.sourceTable) = some tm)
    (possible : change.Possible table)
    (sent : Sent identity tm table event change) :
    Asks tm (skips tm event) (planEvent mappings event) change := by
  cases change with
  | insert id text =>
      obtain ⟨op, name, row, present, shownId, shown⟩ := sent
      obtain ⟨_, idFilled, textFilled⟩ := possible
      rcases shown with ⟨_, shown⟩ | ⟨_, impossible⟩
      · subst shownId shown
        refine ⟨tm.metadataSources.map row.getColumn, ?_⟩
        simp [planEvent, op, name, mapped, prepareUpsert,
          Option.mem_def.mp present, idFilled, textFilled]
      · cases impossible
  | update id newId text =>
      obtain ⟨op, name, ⟨row, present, shownId, shown⟩, _⟩ := sent
      obtain ⟨_, _, idFilled, textFilled⟩ := possible
      have toast : skips tm event = embedUnchanged tm event row := by
        rw [skips, Option.mem_def.mp present, Option.any_some]
      cases skipped : skips tm event with
      | true =>
          simp [Asks, planEvent, op, name, mapped, prepareUpsert,
            Option.mem_def.mp present, ← toast, skipped]
      | false =>
          rcases shown with ⟨_, shown⟩ | ⟨flagged, _⟩
          · subst shownId shown
            refine ⟨tm.metadataSources.map row.getColumn, ?_⟩
            simp [planEvent, op, name, mapped, prepareUpsert,
              Option.mem_def.mp present, ← toast, skipped, idFilled,
              textFilled]
          · rw [toast, embedUnchanged, flagged] at skipped
            cases skipped
  | delete id =>
      obtain ⟨op, name, row, present, _, _, shownId, _⟩ := sent
      subst shownId
      simp [Asks, planEvent, op, name, mapped, Option.mem_def.mp present,
        possible.2]
  | truncate =>
      obtain ⟨op, name⟩ := sent
      simp [Asks, planEvent, op, name, mapped]
  | commit =>
      have op : event.op = .commit := sent
      simp [Asks, planEvent, op]

/-- What a planned action, if any, does to the row with one key. -/
def actPlanned (embed : String → List φ) (key : String × Option String)
    (row : Option (Record φ)) (planned : Option BatchEvent) :
    Option (Record φ) :=
  planned.elim row (BatchEvent.act embed key row)

/-- The text of a row. -/
def rowText (tm : TableMapping) (row : Option (Record φ)) :
    Option (Option String) :=
  row.map fun record => record.columns tm.embedSink

/-- A change that rewrites the row of an id leaves the table's text there. -/
theorem rowText_actPlanned
    {embed : String → List φ}
    {skipped : Bool}
    {planned : Option BatchEvent}
    (asks : Asks tm skipped planned change)
    {id : String}
    (rewrites : change.Rewrites skipped id)
    (table : Texts)
    (row : Option (Record φ)) :
    rowText tm (actPlanned embed (tm.rowKey id) row planned) =
      (change.apply table id).map some := by
  cases change with
  | insert other text =>
      obtain ⟨metaVals, rfl⟩ := asks
      cases rewrites
      simp [actPlanned, BatchEvent.act, rowText, Record.assign,
        TableMapping.assignments, Change.apply]
  | update old newId text =>
      obtain ⟨rfl, rfl⟩ := rewrites
      obtain ⟨metaVals, rfl⟩ := asks
      simp [actPlanned, BatchEvent.act, rowText, Record.assign,
        TableMapping.assignments, Change.apply]
  | delete other =>
      cases rewrites
      cases asks
      simp [actPlanned, BatchEvent.act, rowText, TableMapping.rowKey,
        TableMapping.scopes_self, Change.apply]
  | truncate =>
      cases asks
      simp [actPlanned, BatchEvent.act, rowText, TableMapping.rowKey,
        TableMapping.scopes_self, Change.apply]
  | commit => exact rewrites.elim

/-- Any other change leaves the row alone. -/
theorem actPlanned_eq_of_not_rewrites
    {embed : String → List φ}
    {skipped : Bool}
    {planned : Option BatchEvent}
    (asks : Asks tm skipped planned change)
    {id : String}
    (other : ¬change.Rewrites skipped id)
    (row : Option (Record φ)) :
    actPlanned embed (tm.rowKey id) row planned = row := by
  have apart : ∀ key, key ≠ id → tm.rowKey key ≠ tm.rowKey id :=
    fun key distinct same => distinct (Prod.ext_iff.mp same).1
  cases change with
  | insert key text =>
      obtain ⟨metaVals, rfl⟩ := asks
      exact if_neg (apart key other)
  | update old newId text =>
      cases skipped with
      | true =>
          cases asks
          rfl
      | false =>
          obtain ⟨metaVals, rfl⟩ := asks
          exact if_neg (apart newId fun same => other ⟨rfl, same⟩)
  | delete key =>
      cases asks
      exact if_neg fun own => other own.1.symm
  | truncate => exact absurd trivial other
  | commit =>
      cases asks
      rfl

/-- A change that neither rewrites nor disturbs an id leaves its text. -/
theorem apply_eq_of_silent
    (sent : Sent identity tm table event change)
    {id : String}
    (other : ¬change.Rewrites (skips tm event) id)
    (calm : ¬change.Disturbs (skips tm event) id) :
    change.apply table id = table id := by
  cases change with
  | insert key text => exact Function.update_of_ne (Ne.symm other) _ _
  | update old newId text =>
      simp only [Change.Rewrites, Change.Disturbs, not_and, not_or] at other calm
      by_cases taken : newId = id
      · cases skipped : skips tm event with
        | false => exact absurd taken (other skipped)
        | true =>
            have kept : newId = old := by
              by_contra moved
              exact (calm moved).2 skipped taken
            subst taken kept
            simp [Change.apply, text_eq_of_skips sent skipped]
      · have unrelated : old ≠ id := by
          rintro rfl
          exact (calm taken).1 rfl
        simp [Change.apply, Function.update_of_ne (Ne.symm taken),
          Function.update_of_ne (Ne.symm unrelated)]
  | delete key => exact Function.update_of_ne (Ne.symm other) _ _
  | truncate => exact absurd trivial other
  | commit => rfl

end Steps

/-! ## Histories -/

/-- The sink has a row for the id just when the table has, with its text. -/
def AgreesAt (tm : TableMapping) (records : Records φ) (table : Texts)
    (id : String) : Prop :=
  rowText tm (records (tm.rowKey id)) = (table id).map some

/-- Same ids and texts. -/
def Agrees (tm : TableMapping) (records : Records φ) (table : Texts) : Prop :=
  ∀ id, AgreesAt tm records table id

/-- Every change that disturbs the id is followed by one that rewrites it. -/
def Settled (tm : TableMapping) (id : String) :
    List (Change × ChangeEvent) → Prop
  | [] => True
  | (change, event) :: history =>
      (change.Disturbs (skips tm event) id →
        ∃ entry ∈ history, entry.1.Rewrites (skips tm entry.2) id) ∧
      Settled tm id history

section Histories

variable {embed : String → List φ}
variable {mappings : List TableMapping}
variable {tm : TableMapping}
variable {table : Texts}
variable {records : Records φ}
variable {history : List (Change × ChangeEvent)}
variable {id : String}

/-- The events of a history, applied one after the other. -/
theorem performAll_cons
    (records : Records φ)
    (event : ChangeEvent)
    (events : List ChangeEvent) :
    records.performAll embed (plan mappings (event :: events)) =
      ((planEvent mappings event).elim records
        (records.perform embed)).performAll embed (plan mappings events) := by
  unfold plan
  rw [List.filterMap_cons]
  cases planEvent mappings event <;> rfl

theorem perform_planned
    (records : Records φ)
    (planned : Option BatchEvent)
    (key : String × Option String) :
    planned.elim records (records.perform embed) key =
      actPlanned embed key (records key) planned := by
  cases planned with
  | none => rfl
  | some action => exact Records.perform_apply records action key

/-- One change of the table and the row of one id. -/
theorem agreesAt_step
    {change : Change}
    {event : ChangeEvent}
    {identity : ReplicaIdentity}
    (mapped : mappings.find? (fun other =>
      other.sourceTable = tm.sourceTable) = some tm)
    (possible : change.Possible table)
    (sent : Sent identity tm table event change)
    (now : change.Rewrites (skips tm event) id ∨
      AgreesAt tm records table id ∧
        ¬change.Disturbs (skips tm event) id) :
    AgreesAt tm
      ((planEvent mappings event).elim records (records.perform embed))
      (change.apply table) id := by
  have asks := planEvent_sent mapped possible sent
  unfold AgreesAt
  rw [perform_planned]
  by_cases rewrites : change.Rewrites (skips tm event) id
  · exact rowText_actPlanned asks rewrites table _
  · obtain ⟨agrees, calm⟩ := now.resolve_left rewrites
    rw [actPlanned_eq_of_not_rewrites asks rewrites,
      apply_eq_of_silent sent rewrites calm]
    exact agrees

/-- The row of an id ends up with the table's text when it agrees from the
start or is rewritten, and no disturbance comes after that. -/
theorem agreesAt_of_settled
    (mapped : mappings.find? (fun other =>
      other.sourceTable = tm.sourceTable) = some tm)
    (follows : Follows tm table history)
    (settled : Settled tm id history)
    (start : AgreesAt tm records table id ∨
      ∃ entry ∈ history, entry.1.Rewrites (skips tm entry.2) id) :
    AgreesAt tm
      (records.performAll embed (plan mappings (history.map Prod.snd)))
      (tableAfter table history) id := by
  induction history generalizing table records with
  | nil =>
      rcases start with agrees | ⟨_, impossible, _⟩
      · exact agrees
      · cases impossible
  | cons entry history inductionHypothesis =>
      obtain ⟨change, event⟩ := entry
      obtain ⟨possible, ⟨identity, sent⟩, follows⟩ := follows
      obtain ⟨followed, settled⟩ := settled
      rw [List.map_cons, performAll_cons]
      apply inductionHypothesis follows settled
      by_cases rewrites : change.Rewrites (skips tm event) id
      · exact .inl (agreesAt_step mapped possible sent (.inl rewrites))
      by_cases disturbs : change.Disturbs (skips tm event) id
      · exact .inr (followed disturbs)
      rcases start with agrees | ⟨entry, member, later⟩
      · exact .inl
          (agreesAt_step mapped possible sent (.inr ⟨agrees, disturbs⟩))
      · rcases List.mem_cons.mp member with rfl | member
        · exact absurd later rewrites
        · exact .inr ⟨entry, member, later⟩

/-- Without changes of ids nothing is ever disturbed. -/
theorem settled_of_keepsId
    (tm : TableMapping)
    (id : String)
    (keeps : ∀ entry ∈ history, entry.1.KeepsId) :
    Settled tm id history := by
  induction history with
  | nil => trivial
  | cons entry history inductionHypothesis =>
      obtain ⟨change, event⟩ := entry
      rw [List.forall_mem_cons] at keeps
      refine ⟨fun disturbs => ?_, inductionHypothesis keeps.2⟩
      cases change with
      | update old newId text => exact absurd keeps.1 disturbs.1
      | insert other text => exact disturbs.elim
      | delete other => exact disturbs.elim
      | truncate => exact disturbs.elim
      | commit => exact disturbs.elim

/-- Only the mapping of the table is asked to act. -/
theorem tm_eq_of_mem_plan
    (mapped : mappings.find? (fun other =>
      other.sourceTable = tm.sourceTable) = some tm)
    (follows : Follows tm table history) :
    ∀ action ∈ plan mappings (history.map Prod.snd), action.tm = tm := by
  unfold plan
  induction history generalizing table with
  | nil => simp
  | cons entry history inductionHypothesis =>
      obtain ⟨change, event⟩ := entry
      obtain ⟨possible, ⟨identity, sent⟩, follows⟩ := follows
      have asks := planEvent_sent mapped possible sent
      intro action member
      rw [List.mem_filterMap] at member
      obtain ⟨other, present, planned⟩ := member
      rcases List.mem_cons.mp present with rfl | present
      · rw [planned] at asks
        exact asks.tm_eq
      · exact inductionHypothesis follows action
          (List.mem_filterMap.mpr ⟨other, present, planned⟩)

/-- The vector of every row is that of the table's text. -/
def Vectors (embed : String → List φ) (tm : TableMapping)
    (records : Records φ) (table : Texts) : Prop :=
  ∀ id, ∀ record ∈ records (tm.rowKey id), ∀ text ∈ table id,
    record.embedding = embed text

/-- A history that keeps all ids, delivered in any batches, leaves the ids and
texts of the table in the sink.  Every row that was written has the vector of
its text, so if vectors were right at the start they are right at the end. -/
theorem agrees_of_keepsId
    (embed : String → List φ)
    (filled : ∀ text, embed text ≠ [])
    (mapped : mappings.find? (fun other =>
      other.sourceTable = tm.sourceTable) = some tm)
    {initial : Records φ}
    (agrees : Agrees tm initial table)
    (follows : Follows tm table history)
    (keeps : ∀ entry ∈ history, entry.1.KeepsId)
    {batches : List (Environment φ × List ChangeEvent)}
    (division : (batches.map Prod.snd).flatten = history.map Prod.snd)
    (answered : ∀ batch ∈ batches, Answers embed batch.1 ∧
      (callBatch batch.1 mappings batch.2).returned = true) :
    Agrees tm (initial.afterBatches mappings batches)
        (tableAfter table history) ∧
      (Vectors embed tm initial table →
        Vectors embed tm (initial.afterBatches mappings batches)
          (tableAfter table history)) ∧
      ∀ id,
        initial.afterBatches mappings batches (tm.rowKey id) =
            initial (tm.rowKey id) ∨
          Embedded embed tm.embedSink
            (initial.afterBatches mappings batches (tm.rowKey id)) := by
  rw [afterBatches_eq filled mappings batches answered, division]
  have final : Agrees tm
      (initial.performAll embed (plan mappings (history.map Prod.snd)))
      (tableAfter table history) := fun id =>
    agreesAt_of_settled mapped follows (settled_of_keepsId tm id keeps)
      (.inl (agrees id))
  have fresh : ∀ id,
      initial.performAll embed (plan mappings (history.map Prod.snd))
          (tm.rowKey id) = initial (tm.rowKey id) ∨
        Embedded embed tm.embedSink
          (initial.performAll embed (plan mappings (history.map Prod.snd))
            (tm.rowKey id)) := by
    intro id
    rw [Records.performAll_apply]
    refine foldl_act_embedded (fun action member => ?_) _
    rw [tm_eq_of_mem_plan mapped follows action member]
  refine ⟨final, ?_, fresh⟩
  intro vectors id record present text held
  have shown : record.columns tm.embedSink = some text := by
    have same := final id
    rw [AgreesAt, Option.mem_def.mp present, Option.mem_def.mp held] at same
    exact Option.some_inj.mp same
  rcases fresh id with untouched | embedded
  · -- The row is the one of the start, so the text is that of the start.
    rw [Option.mem_def.mp present] at untouched
    have before := agrees id
    rw [AgreesAt, ← untouched, rowText, Option.map_some, shown] at before
    cases start : table id with
    | none => simp [start] at before
    | some earlier =>
        rw [start, Option.map_some, Option.some_inj, Option.some_inj] at before
        subst before
        exact vectors id record untouched.symm text start
  · obtain ⟨other, column, vector⟩ := embedded record present
    rw [shown, Option.some_inj] at column
    rw [vector, column]

end Histories

/-! ## A sample history -/

/-- The table of articles and the sink hold one row at the start. -/
def sampleTable : Texts := fun id => if id = "1" then some "old" else none

def sampleRecords : Records Nat := fun key =>
  if key = ("1", some "article") then
    some {
      columns := fun column => if column = "text" then some "old" else none
      embedding := [3] }
  else none

def articleUpdate (oldRow : Option DecodedRow) (newRow : DecodedRow) :
    ChangeEvent :=
  { op := .update, tableName := "articles", oldRow, newRow := some newRow }

/-- An insert, an update, one that leaves a toasted text out, one that shows
the same text twice, and a delete that shows the key only. -/
def sampleHistory : List (Change × ChangeEvent) :=
  [(.insert "2" "two", articleInsert "2" "two" "b"),
    (.update "1" "1" "new",
      articleUpdate none (articleTuple .updateNew "1" "new" "a")),
    (.update "1" "1" "new",
      articleUpdate none
        { kind := .updateNew
          columns := [{ name := "id", textValue := "1" },
            { name := "body", isUnchangedToast := true }] }),
    (.update "1" "1" "new",
      articleUpdate (some (articleTuple .updateOld "1" "new" "a"))
        (articleTuple .updateNew "1" "new" "c")),
    (.delete "2",
      { op := .delete
        tableName := "articles"
        oldRow := some
          { kind := .delete, columns := [{ name := "id", textValue := "2" }] }
      }),
    (.commit, { op := .commit })]

theorem follows_sampleHistory :
    Follows articles sampleTable sampleHistory := by
  refine ⟨by decide, ⟨.default, rfl, rfl, _, rfl, rfl, .inl ⟨rfl, rfl⟩⟩,
    by decide, ⟨.default, rfl, rfl, ⟨_, rfl, rfl, .inl ⟨rfl, rfl⟩⟩,
      "old", rfl, rfl, rfl⟩,
    by decide, ⟨.default, rfl, rfl, ⟨_, rfl, rfl, .inr ⟨rfl, rfl⟩⟩,
      "new", rfl, rfl, rfl⟩,
    by decide, ⟨.full, rfl, rfl, ⟨_, rfl, rfl, .inl ⟨rfl, rfl⟩⟩,
      "new", rfl, rfl, .inl rfl⟩,
    by decide, ⟨.default, rfl, rfl, _, rfl, "two", rfl, rfl,
      .inr ⟨rfl, rfl⟩⟩,
    trivial, ⟨.default, rfl⟩, trivial⟩

theorem agrees_sample : Agrees articles sampleRecords sampleTable := by
  intro id
  by_cases first : id = "1"
  · subst first
    rfl
  · have other : articles.rowKey id ≠ ("1", some "article") :=
      fun same => first (Prod.ext_iff.mp same).1
    simp [AgreesAt, rowText, sampleRecords, sampleTable, other, first]

theorem vectors_sample :
    Vectors sampleEmbed articles sampleRecords sampleTable := by
  intro id record present text held
  by_cases first : id = "1"
  · subst first
    cases Option.mem_def.mp present
    cases Option.mem_def.mp held
    rfl
  · simp [sampleTable, first] at held

def sampleBatches : List (Environment Nat × List ChangeEvent) :=
  [(steady sampleEmbed, (sampleHistory.map Prod.snd).take 2),
    (steady sampleEmbed, (sampleHistory.map Prod.snd).drop 2)]

theorem answered_sampleBatches :
    ∀ batch ∈ sampleBatches, Answers sampleEmbed batch.1 ∧
      (callBatch batch.1 [articles] batch.2).returned = true := by
  simp only [sampleBatches, List.mem_cons, List.not_mem_nil, or_false]
  rintro batch (rfl | rfl)
  · exact ⟨answers_steady sampleEmbed, callBatch_steady_returned _ _⟩
  · exact ⟨answers_steady sampleEmbed, callBatch_steady_returned _ _⟩

/-- Delivered in two batches, the sample history leaves its only row, with the
vector of its text. -/
theorem agrees_sampleHistory :
    Agrees articles (sampleRecords.afterBatches [articles] sampleBatches)
        (tableAfter sampleTable sampleHistory) ∧
      Vectors sampleEmbed articles
        (sampleRecords.afterBatches [articles] sampleBatches)
        (tableAfter sampleTable sampleHistory) ∧
      tableAfter sampleTable sampleHistory "1" = some "new" ∧
      tableAfter sampleTable sampleHistory "2" = none := by
  have keeps : ∀ entry ∈ sampleHistory, entry.1.KeepsId := by
    simp [sampleHistory, Change.KeepsId]
  obtain ⟨agrees, vectors, _⟩ := agrees_of_keepsId sampleEmbed
    (by simp [sampleEmbed]) (by decide) agrees_sample follows_sampleHistory
    keeps (by decide) answered_sampleBatches
  exact ⟨agrees, vectors vectors_sample, rfl, rfl⟩

/-- The same row with a vector that is not the one of its text. -/
def staleRecords : Records Nat := fun key =>
  (sampleRecords key).map fun record => { record with embedding := [0] }

/-- An update that leaves out the toasted text. -/
def toastedHistory : List (Change × ChangeEvent) :=
  [(.update "1" "1" "old",
    articleUpdate none
      { kind := .updateNew
        columns := [{ name := "id", textValue := "1" },
          { name := "body", isUnchangedToast := true }] })]

/-- The sink agrees with the table in ids and texts, but a vector that is wrong
at the start stays wrong when no event rewrites the row. -/
theorem not_vectors_staleRecords :
    Agrees articles staleRecords sampleTable ∧
      Follows articles sampleTable toastedHistory ∧
      (∀ entry ∈ toastedHistory, entry.1.KeepsId) ∧
      Answers sampleEmbed (steady sampleEmbed) ∧
      (callBatch (steady sampleEmbed) [articles]
        (toastedHistory.map Prod.snd)).returned = true ∧
      ¬Vectors sampleEmbed articles
        (staleRecords.afterBatches [articles]
          [(steady sampleEmbed, toastedHistory.map Prod.snd)])
        (tableAfter sampleTable toastedHistory) := by
  refine ⟨fun id => ?_, ?_, ?_, answers_steady sampleEmbed,
    callBatch_steady_returned _ _, fun vectors => ?_⟩
  · have start := agrees_sample id
    rw [AgreesAt, rowText] at start
    rw [AgreesAt, rowText, staleRecords, Option.map_map]
    exact start
  · exact ⟨by decide, ⟨.default, rfl, rfl, ⟨_, rfl, rfl, .inr ⟨rfl, rfl⟩⟩,
      "old", rfl, rfl, rfl⟩, trivial⟩
  · simp [toastedHistory, Change.KeepsId]
  · have stale := vectors "1" _ rfl "old" rfl
    exact absurd stale (by decide)

end Live
end Sink
end Walkrie
