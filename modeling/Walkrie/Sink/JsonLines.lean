import Walkrie.Library.Json
import Walkrie.Wire.PgOutput

/-!
# The JSON sink

`JsonSink` writes every event as one line of JSON.  A line holds the whole
document of its event and nothing else, so the output can be read back: it is
the documents of the events, in order, up to the first event of each batch
that cannot be written.  A document determines the event it was made for, but
for unchanged columns, which look like columns with a certain text.

What `dump()` writes, and whether it throws, is up to the JSON library.
-/

namespace Walkrie

/-! ## Documents -/

/-- The text that stands for an unchanged column. -/
def unchangedToast : String := "__unchanged_toast__"

def ColumnValue.toJson (column : ColumnValue) : Json.Value :=
  if column.isNull then .null
  else if column.isUnchangedToast then .text unchangedToast
  else .text column.textValue

/-- `to_json` of a row.  A row without columns stays null. -/
def DecodedRow.toJson (row : DecodedRow) : Json.Value :=
  row.columns.foldl
    (fun document column => document.assign column.name column.toJson) .null

/-- `ChangeEvent::to_string` -/
def Op.toText : Op → String
  | .insert => "insert"
  | .update => "update"
  | .delete => "delete"
  | .truncate => "truncate"
  | .commit => "commit"

/-- `if (row) j[key] = *row;` -/
def assignRow (key : String) (row : Option DecodedRow)
    (document : Json.Value) : Json.Value :=
  match row with
  | none => document
  | some row => document.assign key row.toJson

/-- The part of a document that every event has. -/
def ChangeEvent.header (event : ChangeEvent) : List (String × Json.Value) :=
  [("op", .text event.op.toText), ("schema", .text event.schemaName),
    ("table", .text event.tableName), ("lsn", .number event.commitLsn),
    ("commit_timestamp", .number event.commitTimestamp)]

/-- `to_json` of an event. -/
def ChangeEvent.toJson (event : ChangeEvent) : Json.Value :=
  assignRow "new" event.newRow
    (assignRow "old" event.oldRow (.object event.header))

/-! ## Writing -/

namespace JsonSink

/-- What was written so far. -/
structure Output where
  stdout : List Char
  file : List Char
  deriving DecidableEq, Repr

variable (json : Json.Library)

/-- `call`; no value when `dump()` throws. -/
def call (target : String) (event : ChangeEvent) (output : Output) :
    Option Output :=
  match json.dump event.toJson with
  | none => none
  | some line =>
      if target = "discard" then some output
      else if target = "stdout" then
        some { output with stdout := output.stdout ++ line ++ ['\n'] }
      else some { output with file := output.file ++ line ++ ['\n'] }

/-- `call_batch`, inherited: whether it returns, and what is written by
then. -/
def callBatch (target : String) :
    List ChangeEvent → Output → Bool × Output
  | [], output => (true, output)
  | event :: events, output =>
      match call json target event output with
      | none => (false, output)
      | some output => callBatch target events output

/-- The dispatcher's calls, one after the other.  A batch that failed is
either passed over or tried again, and then it is in the list again. -/
def callAll (target : String) (batches : List (List ChangeEvent))
    (output : Output) : Output :=
  batches.foldl
    (fun output batch => (callBatch json target batch output).2) output

/-- The text that a target collects. -/
def Output.text (output : Output) (target : String) : List Char :=
  if target = "stdout" then output.stdout else output.file

/-- The event can be written. -/
def writable (event : ChangeEvent) : Bool :=
  (json.dump event.toJson).isSome

/-- The part of a batch that is written. -/
def written (batch : List ChangeEvent) : List ChangeEvent :=
  batch.takeWhile (writable json)

/-- The lines of some events. -/
def linesOf (events : List ChangeEvent) : List (List Char) :=
  events.filterMap fun event => json.dump event.toJson

/-- Lines as they are written. -/
def ended (lines : List (List Char)) : List Char :=
  lines.flatMap (· ++ ['\n'])

variable {json}

theorem call_of_writable
    {target : String}
    {event : ChangeEvent}
    (kept : target ≠ "discard")
    (fine : writable json event = true)
    (output : Output) :
    ∃ after, call json target event output = some after ∧
      after.text target =
        output.text target ++ ended (linesOf json [event]) := by
  obtain ⟨line, dumped⟩ := Option.isSome_iff_exists.mp fine
  unfold call Output.text
  rw [dumped]
  by_cases standard : target = "stdout"
  · simp [standard, linesOf, ended, dumped]
  · simp [standard, kept, linesOf, ended, dumped]

theorem call_of_not_writable
    {event : ChangeEvent}
    (target : String)
    (broken : writable json event = false)
    (output : Output) :
    call json target event output = none := by
  have refused : json.dump event.toJson = none := by
    simpa [writable] using broken
  rw [call, refused]

/-- A batch is written up to the first event that cannot be. -/
theorem text_callBatch
    {target : String}
    (kept : target ≠ "discard")
    (batch : List ChangeEvent)
    (output : Output) :
    (callBatch json target batch output).2.text target =
        output.text target ++ ended (linesOf json (written json batch)) ∧
      ((callBatch json target batch output).1 = true ↔
        ∀ event ∈ batch, writable json event = true) := by
  induction batch generalizing output with
  | nil => simp [callBatch, written, linesOf, ended]
  | cons event batch inductionHypothesis =>
      cases fine : writable json event with
      | true =>
          obtain ⟨after, called, text⟩ := call_of_writable kept fine output
          obtain ⟨rest, returned⟩ := inductionHypothesis after
          have split : written json (event :: batch) =
              [event] ++ written json batch := by
            simp [written, fine]
          rw [callBatch, called, split, linesOf, List.filterMap_append,
            ended, List.flatMap_append, ← List.append_assoc]
          rw [text] at rest
          refine ⟨rest, ?_⟩
          rw [List.forall_mem_cons]
          simpa [fine] using returned
      | false =>
          rw [callBatch, call_of_not_writable target fine output]
          simp [written, fine, linesOf, ended]

theorem text_callAll
    {target : String}
    (kept : target ≠ "discard")
    (batches : List (List ChangeEvent))
    (output : Output) :
    (callAll json target batches output).text target =
      output.text target ++
        ended (linesOf json (batches.flatMap (written json))) := by
  induction batches generalizing output with
  | nil => simp [callAll, linesOf, ended]
  | cons batch batches inductionHypothesis =>
      have rest := inductionHypothesis (callBatch json target batch output).2
      rw [(text_callBatch kept batch output).1, List.append_assoc, ended,
        ended, ← List.flatMap_append, linesOf, linesOf,
        ← List.filterMap_append] at rest
      exact rest

/-- Events that can be written all have a line. -/
theorem map_dump_of_writable
    {events : List ChangeEvent}
    (fine : ∀ event ∈ events, writable json event = true) :
    (events.map ChangeEvent.toJson).map json.dump =
      (linesOf json events).map some := by
  induction events with
  | nil => rfl
  | cons event events inductionHypothesis =>
      rw [List.forall_mem_cons] at fine
      obtain ⟨line, dumped⟩ := Option.isSome_iff_exists.mp fine.1
      have added : linesOf json (event :: events) =
          line :: linesOf json events :=
        List.filterMap_cons_some dumped
      rw [List.map_cons, List.map_cons, inductionHypothesis fine.2, added,
        dumped, List.map_cons]

/-- The lines of the output of any calls, read as JSON, are the documents of
the events that were written: of each batch, those before the first event
that `dump()` refuses.  A call throws exactly when there is one. -/
theorem output_readable
    {json : Json.Library}
    (lawful : json.Lawful)
    {target : String}
    (kept : target ≠ "discard")
    (batches : List (List ChangeEvent)) :
    (Json.lines ((callAll json target batches ⟨[], []⟩).text target)).map
          json.parse =
        (batches.flatMap (written json)).map
          (fun event => some event.toJson) ∧
      ∀ batch output, (callBatch json target batch output).1 = true ↔
        ∀ event ∈ batch, json.dump event.toJson ≠ none := by
  constructor
  · have empty : (⟨[], []⟩ : Output).text target = [] := by
      unfold Output.text
      split <;> rfl
    have fine : ∀ event ∈ batches.flatMap (written json),
        writable json event = true := by
      intro event member
      obtain ⟨batch, _, among⟩ := List.mem_flatMap.mp member
      exact List.mem_takeWhile_imp among
    rw [text_callAll kept, empty, List.nil_append, ended,
      lawful.parse_lines (map_dump_of_writable fine), List.map_map]
    rfl
  · intro batch output
    rw [(text_callBatch kept batch output).2]
    simp only [writable, Option.isSome_iff_ne_none]

section Sample

open scoped Classical in
/-- A library that writes a single document. -/
noncomputable def onlyWrites (document : Json.Value) : Json.Library where
  dump value := if value = document then some ['x'] else none
  parse text := if text = ['x'] then some document else none

theorem dump_onlyWrites_eq_some_iff
    {document value : Json.Value}
    {text : List Char} :
    (onlyWrites document).dump value = some text ↔
      value = document ∧ text = ['x'] := by
  simp only [onlyWrites]
  split <;> rename_i same
  · simp [same, eq_comm]
  · simp [same]

theorem lawful_onlyWrites (document : Json.Value) :
    (onlyWrites document).Lawful where
  single := by
    intro value text dumped
    obtain ⟨_, rfl⟩ := dump_onlyWrites_eq_some_iff.mp dumped
    decide
  parse_dump := by
    intro value text dumped
    obtain ⟨rfl, rfl⟩ := dump_onlyWrites_eq_some_iff.mp dumped
    simp [onlyWrites]

end Sample

def sampleInsert (body : String) : ChangeEvent where
  op := .insert
  schemaName := "public"
  tableName := "docs"
  newRow := some ⟨"public", "docs", .insert, [⟨"body", false, false, body⟩]⟩

/-- The second event of the second batch is refused. -/
def sampleBatches : List (List ChangeEvent) :=
  [[sampleInsert "a"],
    [sampleInsert "a", sampleInsert "\xff", sampleInsert "a"]]

theorem output_sampleBatches :
    "stdout" ≠ "discard" ∧
      ∃ json : Json.Library, json.Lawful ∧
        (Json.lines ((callAll json "stdout" sampleBatches ⟨[], []⟩).text
            "stdout")).map json.parse =
          [some (sampleInsert "a").toJson,
            some (sampleInsert "a").toJson] := by
  have kept : "stdout" ≠ "discard" := by decide
  have first : writable (onlyWrites (sampleInsert "a").toJson)
      (sampleInsert "a") = true :=
    Option.isSome_iff_exists.mpr
      ⟨_, dump_onlyWrites_eq_some_iff.mpr ⟨rfl, rfl⟩⟩
  have second : writable (onlyWrites (sampleInsert "a").toJson)
      (sampleInsert "\xff") = false := by
    rw [writable, Option.isSome_eq_false_iff, Option.isNone_iff_eq_none]
    refine if_neg fun same => ?_
    simp [sampleInsert, ChangeEvent.toJson, ChangeEvent.header, assignRow,
      DecodedRow.toJson, ColumnValue.toJson, Json.Value.assign,
      Json.assignField] at same
  refine ⟨kept, _, lawful_onlyWrites (sampleInsert "a").toJson, ?_⟩
  rw [(output_readable (lawful_onlyWrites _) kept sampleBatches).1]
  simp [sampleBatches, written, first, second]

end JsonSink

/-! ## What a document tells -/

/-- At most one of the two marks is set, and a marked column has no text. -/
def ColumnValue.Regular (column : ColumnValue) : Prop :=
  (column.isNull = true →
      column.isUnchangedToast = false ∧ column.textValue = "") ∧
    (column.isUnchangedToast = true → column.textValue = "")

/-- A row of a relation, as a tuple of the given kind. -/
structure DecodedRow.Regular
    (row : DecodedRow)
    (schemaName tableName : String)
    (kind : TupleKind) : Prop where
  schemaName_eq : row.schemaName = schemaName
  tableName_eq : row.tableName = tableName
  kind_eq : row.kind = kind
  columns : ∀ column ∈ row.columns, column.Regular

/-- The kind of the old row of an event. -/
def Op.oldKind : Op → TupleKind
  | .delete => .delete
  | _ => .updateOld

/-- The kind of the new row of an event. -/
def Op.newKind : Op → TupleKind
  | .insert => .insert
  | _ => .updateNew

/-- An event as the decoder makes it. -/
structure ChangeEvent.Regular (event : ChangeEvent) : Prop where
  oldRow : ∀ row ∈ event.oldRow,
    row.Regular event.schemaName event.tableName event.op.oldKind
  newRow : ∀ row ∈ event.newRow,
    row.Regular event.schemaName event.tableName event.op.newKind

/-- No row has two columns of one name. -/
def ChangeEvent.Distinct (event : ChangeEvent) : Prop :=
  (∀ row ∈ event.oldRow, (row.columns.map ColumnValue.name).Nodup) ∧
    ∀ row ∈ event.newRow, (row.columns.map ColumnValue.name).Nodup

/-- An unchanged column as the text that stands for it. -/
def ColumnValue.erase (column : ColumnValue) : ColumnValue :=
  if column.isUnchangedToast then
    { column with isUnchangedToast := false, textValue := unchangedToast }
  else column

def DecodedRow.erase (row : DecodedRow) : DecodedRow :=
  { row with columns := row.columns.map ColumnValue.erase }

def ChangeEvent.erase (event : ChangeEvent) : ChangeEvent :=
  { event with
    oldRow := event.oldRow.map DecodedRow.erase
    newRow := event.newRow.map DecodedRow.erase }

/-- The field of a column. -/
def ColumnValue.field (column : ColumnValue) : String × Json.Value :=
  (column.name, column.toJson)

theorem field_eq_iff
    {column other : ColumnValue}
    (regular : column.Regular)
    (otherRegular : other.Regular) :
    column.field = other.field ↔ column.erase = other.erase := by
  obtain ⟨name, isNull, isToast, text⟩ := column
  obtain ⟨otherName, otherNull, otherToast, otherText⟩ := other
  unfold ColumnValue.Regular at regular otherRegular
  unfold ColumnValue.field ColumnValue.toJson ColumnValue.erase
  cases isNull <;> cases isToast <;> cases otherNull <;> cases otherToast <;>
    simp_all

/-- New names are assigned behind the fields there are. -/
theorem foldl_assign
    (columns : List ColumnValue)
    (fields : List (String × Json.Value))
    (apart : (fields.map Prod.fst ++
      columns.map ColumnValue.name).Nodup) :
    columns.foldl (fun (document : Json.Value) column =>
        document.assign column.name column.toJson) (.object fields) =
      .object (fields ++ columns.map ColumnValue.field) := by
  induction columns generalizing fields with
  | nil => simp
  | cons column columns inductionHypothesis =>
      have new : column.name ∉ fields.map Prod.fst := by
        rw [List.nodup_append] at apart
        intro member
        exact apart.2.2 _ member _ (by simp) rfl
      rw [List.foldl_cons, Json.Value.assign,
        Json.assignField_of_notMem new, inductionHypothesis]
      · simp [ColumnValue.field]
      · simpa [List.append_assoc] using apart

/-- With distinct names the document of a row is the list of its fields. -/
theorem toJson_row
    {row : DecodedRow}
    (distinct : (row.columns.map ColumnValue.name).Nodup) :
    row.toJson =
      if row.columns = [] then .null
      else .object (row.columns.map ColumnValue.field) := by
  obtain ⟨schemaName, tableName, kind, columns⟩ := row
  cases columns with
  | nil => rfl
  | cons column columns =>
      rw [if_neg (List.cons_ne_nil _ _)]
      exact foldl_assign columns [column.field] distinct

theorem map_field_eq_iff
    {columns others : List ColumnValue}
    (regular : ∀ column ∈ columns, column.Regular)
    (othersRegular : ∀ column ∈ others, column.Regular) :
    columns.map ColumnValue.field = others.map ColumnValue.field ↔
      columns.map ColumnValue.erase = others.map ColumnValue.erase := by
  induction columns generalizing others with
  | nil => simp [eq_comm (a := [])]
  | cons column columns inductionHypothesis =>
      cases others with
      | nil => simp
      | cons other others =>
          rw [List.forall_mem_cons] at regular othersRegular
          simp only [List.map_cons, List.cons.injEq,
            field_eq_iff regular.1 othersRegular.1,
            inductionHypothesis regular.2 othersRegular.2]

theorem toJson_row_eq_iff
    {row other : DecodedRow}
    {schemaName tableName : String}
    {kind : TupleKind}
    (regular : row.Regular schemaName tableName kind)
    (otherRegular : other.Regular schemaName tableName kind)
    (distinct : (row.columns.map ColumnValue.name).Nodup)
    (otherDistinct : (other.columns.map ColumnValue.name).Nodup) :
    row.toJson = other.toJson ↔ row.erase = other.erase := by
  have fields := map_field_eq_iff regular.columns otherRegular.columns
  have erased : row.erase = other.erase ↔
      row.columns.map ColumnValue.erase =
        other.columns.map ColumnValue.erase := by
    simp [DecodedRow.erase, regular.schemaName_eq, regular.tableName_eq,
      regular.kind_eq, otherRegular.schemaName_eq,
      otherRegular.tableName_eq, otherRegular.kind_eq]
  rw [erased, ← fields, toJson_row distinct, toJson_row otherDistinct]
  by_cases empty : row.columns = [] <;>
    by_cases otherEmpty : other.columns = [] <;>
    simp [empty, otherEmpty, eq_comm (a := [])]

/-- The field of a row, if there is one. -/
def rowField (key : String) (row : Option DecodedRow) :
    List (String × Json.Value) :=
  (row.map fun row => (key, row.toJson)).toList

theorem toJson_event (event : ChangeEvent) :
    event.toJson = .object (event.header ++ rowField "old" event.oldRow ++
      rowField "new" event.newRow) := by
  obtain ⟨op, schemaName, tableName, oldRow, newRow, lsn, timestamp⟩ := event
  cases oldRow <;> cases newRow <;>
    simp [ChangeEvent.toJson, assignRow, ChangeEvent.header, rowField,
      Json.Value.assign, Json.assignField]

theorem toText_injective : Function.Injective Op.toText := by
  intro op other same
  cases op <;> cases other <;> first | rfl | exact absurd same (by decide)

theorem rowFields_eq_iff
    {oldRow newRow otherOld otherNew : Option DecodedRow} :
    rowField "old" oldRow ++ rowField "new" newRow =
        rowField "old" otherOld ++ rowField "new" otherNew ↔
      oldRow.map DecodedRow.toJson = otherOld.map DecodedRow.toJson ∧
        newRow.map DecodedRow.toJson = otherNew.map DecodedRow.toJson := by
  cases oldRow <;> cases newRow <;> cases otherOld <;> cases otherNew <;>
    simp [rowField]

theorem header_eq_iff {event other : ChangeEvent} :
    event.header = other.header ↔
      event.op = other.op ∧ event.schemaName = other.schemaName ∧
        event.tableName = other.tableName ∧
        event.commitLsn = other.commitLsn ∧
        event.commitTimestamp = other.commitTimestamp := by
  simp [ChangeEvent.header, toText_injective.eq_iff]

theorem erase_eq_iff {event other : ChangeEvent} :
    event.erase = other.erase ↔
      event.header = other.header ∧
        event.oldRow.map DecodedRow.erase =
            other.oldRow.map DecodedRow.erase ∧
          event.newRow.map DecodedRow.erase =
            other.newRow.map DecodedRow.erase := by
  rw [header_eq_iff]
  simp only [ChangeEvent.erase, ChangeEvent.mk.injEq]
  tauto

theorem map_toJson_eq_iff
    {row other : Option DecodedRow}
    {schemaName tableName : String}
    {kind : TupleKind}
    (regular : ∀ found ∈ row, found.Regular schemaName tableName kind)
    (otherRegular : ∀ found ∈ other,
      found.Regular schemaName tableName kind)
    (distinct : ∀ found ∈ row,
      (found.columns.map ColumnValue.name).Nodup)
    (otherDistinct : ∀ found ∈ other,
      (found.columns.map ColumnValue.name).Nodup) :
    row.map DecodedRow.toJson = other.map DecodedRow.toJson ↔
      row.map DecodedRow.erase = other.map DecodedRow.erase := by
  cases row with
  | none => cases other <;> simp
  | some row =>
      cases other with
      | none => simp
      | some other =>
          simpa using toJson_row_eq_iff (regular row rfl)
            (otherRegular other rfl) (distinct row rfl)
            (otherDistinct other rfl)

/-- Two events have one document exactly when they are the same event, but
for unchanged columns and columns with the text that stands for them. -/
theorem toJson_eq_iff
    {event other : ChangeEvent}
    (regular : event.Regular)
    (otherRegular : other.Regular)
    (distinct : event.Distinct)
    (otherDistinct : other.Distinct) :
    event.toJson = other.toJson ↔ event.erase = other.erase := by
  have split : event.header ++ (rowField "old" event.oldRow ++
        rowField "new" event.newRow) =
      other.header ++ (rowField "old" other.oldRow ++
        rowField "new" other.newRow) ↔
      event.header = other.header ∧
        rowField "old" event.oldRow ++ rowField "new" event.newRow =
          rowField "old" other.oldRow ++ rowField "new" other.newRow :=
    ⟨fun same => List.append_inj same rfl, fun ⟨first, second⟩ => by
      rw [first, second]⟩
  rw [toJson_event, toJson_event, Json.Value.object.injEq,
    List.append_assoc, List.append_assoc, split, rowFields_eq_iff,
    erase_eq_iff]
  refine and_congr_right fun headers => ?_
  obtain ⟨op, schemaName, tableName, -, -⟩ := header_eq_iff.mp headers
  have oldRegular := otherRegular.oldRow
  have newRegular := otherRegular.newRow
  rw [← op, ← schemaName, ← tableName] at oldRegular newRegular
  exact and_congr
    (map_toJson_eq_iff regular.oldRow oldRegular distinct.1 otherDistinct.1)
    (map_toJson_eq_iff regular.newRow newRegular distinct.2 otherDistinct.2)

/-! ## Decoded events -/

open Wire

variable (memory : Memory)

theorem readColumn_regular (name : String) :
    (readColumn memory name).Ensures ColumnValue.Regular := by
  unfold readColumn
  refine Reader.ensures_bind_of_forall fun kindByte => ?_
  split_ifs
  · exact Reader.ensures_pure ⟨fun _ => ⟨rfl, rfl⟩, by simp⟩
  · exact Reader.ensures_pure ⟨by simp, fun _ => rfl⟩
  · refine Reader.ensures_bind_of_forall fun valueLen => ?_
    refine Reader.ensures_bind_of_forall fun _ => ?_
    refine Reader.ensures_bind_of_forall fun value => ?_
    exact Reader.ensures_pure ⟨by simp, by simp⟩
  · exact Reader.ensures_raise _ _

theorem readColumns_regular (count : Nat) (names : List String) :
    (readColumns memory count names).Ensures
      fun columns => ∀ column ∈ columns, column.Regular := by
  induction count generalizing names with
  | zero => exact Reader.ensures_pure (by simp)
  | succ count inductionHypothesis =>
      refine (readColumn_regular memory _).bind fun column regular => ?_
      refine (inductionHypothesis _).bind fun columns others => ?_
      exact Reader.ensures_pure (List.forall_mem_cons.mpr ⟨regular, others⟩)

theorem decodeTuple_regular (rel : RelationInfo) (kind : TupleKind) :
    (decodeTuple memory rel kind).Ensures
      fun row => row.Regular rel.schemaName rel.tableName kind := by
  unfold decodeTuple
  refine Reader.ensures_bind_of_forall fun numColumns => ?_
  refine (readColumns_regular memory numColumns rel.columnNames).bind
    fun columns regular => ?_
  exact Reader.ensures_pure ⟨rfl, rfl, rfl, regular⟩

theorem readOldTuple_regular (rel : RelationInfo) (first : UInt8) :
    (readOldTuple memory rel first).Ensures fun old => ∀ row ∈ old.1,
      row.Regular rel.schemaName rel.tableName .updateOld := by
  unfold readOldTuple
  split_ifs
  · refine (decodeTuple_regular memory rel .updateOld).bind
      fun row regular => ?_
    refine Reader.ensures_bind_of_forall fun next => ?_
    exact Reader.ensures_pure (by simpa using regular)
  · exact Reader.ensures_pure (by simp)

theorem readNewTuple_regular (rel : RelationInfo) (next : UInt8) :
    (readNewTuple memory rel next).Ensures fun new => ∀ row ∈ new,
      row.Regular rel.schemaName rel.tableName .updateNew := by
  unfold readNewTuple
  split_ifs
  · refine (decodeTuple_regular memory rel .updateNew).bind
      fun row regular => ?_
    exact Reader.ensures_pure (by simpa using regular)
  · exact Reader.ensures_pure (by simp)

namespace Wire
namespace PgOutputParser

theorem parseInsert_regular (parser : PgOutputParser) :
    (parser.parseInsert memory).Ensures ChangeEvent.Regular := by
  unfold parseInsert
  refine Reader.ensures_bind_of_forall fun rel => ?_
  refine Reader.ensures_bind_of_forall fun tupleTag => ?_
  refine (decodeTuple_regular memory rel .insert).bind
    fun row regular => ?_
  exact Reader.ensures_pure
    ⟨by simp [changeEvent], by simpa [changeEvent, Op.newKind] using regular⟩

theorem parseUpdate_regular (parser : PgOutputParser) :
    (parser.parseUpdate memory).Ensures ChangeEvent.Regular := by
  unfold parseUpdate
  refine Reader.ensures_bind_of_forall fun rel => ?_
  refine Reader.ensures_bind_of_forall fun first => ?_
  refine (readOldTuple_regular memory rel first).bind fun old oldRegular => ?_
  refine (readNewTuple_regular memory rel old.2).bind fun new newRegular => ?_
  exact Reader.ensures_pure ⟨oldRegular, newRegular⟩

theorem parseDelete_regular (parser : PgOutputParser) :
    (parser.parseDelete memory).Ensures ChangeEvent.Regular := by
  unfold parseDelete
  refine Reader.ensures_bind_of_forall fun rel => ?_
  refine Reader.ensures_bind_of_forall fun tag => ?_
  refine (decodeTuple_regular memory rel .delete).bind
    fun row regular => ?_
  exact Reader.ensures_pure
    ⟨by simpa [changeEvent, Op.oldKind] using regular, by simp [changeEvent]⟩

theorem readTruncated_regular (parser : PgOutputParser) (count : Nat) :
    (parser.readTruncated count).Ensures
      fun events => ∀ event ∈ events, event.Regular := by
  induction count with
  | zero => exact Reader.ensures_pure (by simp)
  | succ count inductionHypothesis =>
      refine Reader.ensures_bind_of_forall fun relId => ?_
      refine inductionHypothesis.bind fun events regular => ?_
      split
      · exact Reader.ensures_pure regular
      · exact Reader.ensures_pure (List.forall_mem_cons.mpr
          ⟨⟨by simp [changeEvent], by simp [changeEvent]⟩, regular⟩)

theorem handleTruncate_regular (parser : PgOutputParser) :
    (parser.handleTruncate memory).Ensures
      fun events => ∀ event ∈ events, event.Regular := by
  unfold handleTruncate
  refine Reader.ensures_bind_of_forall fun numRelations => ?_
  refine Reader.ensures_bind_of_forall fun flags => ?_
  refine Reader.ensures_bind_of_forall fun _ => ?_
  exact readTruncated_regular parser numRelations

theorem parseBody_regular (parser : PgOutputParser) (msgType : UInt8) :
    (parser.parseBody memory msgType).Ensures fun result =>
      ∀ events ∈ result.2, ∀ event ∈ events, event.Regular := by
  unfold parseBody
  split_ifs
  · exact Reader.ensures_bind_of_forall fun parser =>
      Reader.ensures_pure (by simp)
  · exact Reader.ensures_pure
      (by simpa using (⟨by simp, by simp⟩ : ChangeEvent.Regular _))
  · exact Reader.ensures_bind_of_forall fun parser =>
      Reader.ensures_pure (by simp)
  · exact Reader.ensures_pure (by simp)
  · exact Reader.ensures_pure (by simp)
  · exact (handleTruncate_regular memory parser).bind fun events regular =>
      Reader.ensures_pure (by simpa using regular)
  · exact (parseInsert_regular memory parser).bind fun event regular =>
      Reader.ensures_pure (by simpa using regular)
  · exact (parseUpdate_regular memory parser).bind fun event regular =>
      Reader.ensures_pure (by simpa using regular)
  · exact (parseDelete_regular memory parser).bind fun event regular =>
      Reader.ensures_pure (by simpa using regular)
  · exact Reader.ensures_pure (by simp)

/-- Every event that the decoder returns is regular. -/
theorem parse_regular
    {memory : Memory}
    {parser next : PgOutputParser}
    {data : List UInt8}
    {events : List ChangeEvent}
    (parsed : parser.parse memory data = .ok (next, some events)) :
    ∀ event ∈ events, event.Regular := by
  unfold parse at parsed
  split at parsed
  · cases parsed
  · cases read : (parser.parseMessage memory).run data with
    | error fault => simp [read, Except.map] at parsed
    | ok result =>
        have message : (parser.parseMessage memory).Ensures fun result =>
            ∀ events ∈ result.2, ∀ event ∈ events, event.Regular :=
          Reader.ensures_bind_of_forall fun msgType =>
            parseBody_regular memory parser msgType
        obtain ⟨⟨after, found⟩, rest⟩ := result
        simp only [read, Except.map, Except.ok.injEq, Prod.mk.injEq]
          at parsed
        exact message read events parsed.2

end PgOutputParser
end Wire

namespace JsonSink

/-- An event of the decoder, with the position of its message. -/
def Decoded (event : ChangeEvent) : Prop :=
  ∃ (memory : Memory) (parser next : PgOutputParser) (data : List UInt8)
    (events : List ChangeEvent) (found : ChangeEvent) (lsn : Nat),
    parser.parse memory data = .ok (next, some events) ∧ found ∈ events ∧
      event = { found with commitLsn := lsn }

theorem Decoded.regular
    {event : ChangeEvent}
    (decoded : Decoded event) :
    event.Regular := by
  obtain ⟨memory, parser, next, data, events, found, lsn, parsed, member,
    rfl⟩ := decoded
  have regular := PgOutputParser.parse_regular parsed found member
  exact ⟨regular.oldRow, regular.newRow⟩

/-- Two lines of the output are the same exactly when the decoded events they
were written for are, but for unchanged columns and columns with the text
that stands for them. -/
theorem line_eq_iff
    {json : Json.Library}
    (separates : json.Separates)
    {event other : ChangeEvent}
    {line otherLine : List Char}
    (decoded : Decoded event)
    (otherDecoded : Decoded other)
    (distinct : event.Distinct)
    (otherDistinct : other.Distinct)
    (dumped : json.dump event.toJson = some line)
    (otherDumped : json.dump other.toJson = some otherLine) :
    line = otherLine ↔ event.erase = other.erase := by
  rw [← toJson_eq_iff decoded.regular otherDecoded.regular distinct
    otherDistinct]
  constructor
  · rintro rfl
    exact separates dumped otherDumped
  · intro same
    rw [same, otherDumped] at dumped
    exact (Option.some.inj dumped).symm

/-- A table with one column. -/
def sampleParser : PgOutputParser where
  relations := fun id =>
    if id = 7 then some ⟨7, "public", "docs", ["body"]⟩ else none

/-- An update whose only column was not sent. -/
def sampleUnchanged : List UInt8 :=
  [85, 0, 0, 0, 7, 78, 0, 1, 117]

/-- An update that sends the text that stands for such a column. -/
def sampleSentinel : List UInt8 :=
  [85, 0, 0, 0, 7, 78, 0, 1, 116, 0, 0, 0, 19] ++
    unchangedToast.toList.map fun c => UInt8.ofNat c.toNat

def sampleUpdate (column : ColumnValue) : ChangeEvent where
  op := .update
  schemaName := "public"
  tableName := "docs"
  newRow := some ⟨"public", "docs", .updateNew, [column]⟩

theorem decoded_sampleUnchanged :
    Decoded (sampleUpdate ⟨"body", false, true, ""⟩) :=
  ⟨.unlimited, sampleParser, sampleParser, sampleUnchanged, _, _, 0, rfl,
    List.mem_singleton.mpr rfl, rfl⟩

theorem decoded_sampleSentinel :
    Decoded (sampleUpdate ⟨"body", false, false, unchangedToast⟩) :=
  ⟨.unlimited, sampleParser, sampleParser, sampleSentinel, _, _, 0, rfl,
    List.mem_singleton.mpr rfl, by decide⟩

theorem distinct_sampleUpdate (column : ColumnValue) :
    (sampleUpdate column).Distinct := by
  simp [ChangeEvent.Distinct, sampleUpdate]

theorem line_sampleUnchanged :
    ∃ (json : Json.Library) (event other : ChangeEvent)
      (line otherLine : List Char),
      json.Separates ∧ event ≠ other ∧ Decoded event ∧ Decoded other ∧
        json.dump event.toJson = some line ∧
        json.dump other.toJson = some otherLine ∧ line = otherLine := by
  have separates : (onlyWrites
      (sampleUpdate ⟨"body", false, true, ""⟩).toJson).Separates := by
    intro value other text dumped otherDumped
    rw [(dump_onlyWrites_eq_some_iff.mp dumped).1,
      (dump_onlyWrites_eq_some_iff.mp otherDumped).1]
  have written := dump_onlyWrites_eq_some_iff.mpr
    ⟨(rfl : (sampleUpdate ⟨"body", false, true, ""⟩).toJson = _), rfl⟩
  refine ⟨_, _, _, _, _, separates, ?_, decoded_sampleUnchanged,
    decoded_sampleSentinel, written, written, ?_⟩
  · decide
  · exact (line_eq_iff separates decoded_sampleUnchanged
      decoded_sampleSentinel (distinct_sampleUpdate _)
      (distinct_sampleUpdate _) written written).mpr (by decide)

end JsonSink
end Walkrie
