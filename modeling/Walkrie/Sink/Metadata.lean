import Walkrie.Backfill.Util
import Walkrie.Sink.Live

/-!
# Metadata columns

An upsert stores the metadata columns of the tuple beside the vector.  Whether
there is an upsert is decided by the text alone, so an update that changes
nothing but metadata is dropped when the text is toasted or shown twice.  And
an upsert stores every metadata column, whether the tuple shows it or not: a
column that is null or left out as unchanged is stored as the empty text.
-/

namespace Walkrie
namespace Sink
namespace Metadata

open Backfill
open Live (articleUpdate)

/-! ## What an upsert stores -/

/-- The columns mapped as metadata. -/
def metadataColumns (tm : TableMapping) : List ColumnMapping :=
  tm.columns.filter fun column => column.role = "metadata"

/-- The statement of an upsert names no text or metadata column twice. -/
def Distinct (tm : TableMapping) : Prop :=
  (tm.embedSink :: tm.metadataSinks).Nodup

instance (tm : TableMapping) : Decidable (Distinct tm) :=
  inferInstanceAs (Decidable (List.Nodup _))

theorem lookup_zip_map
    {columns : List ColumnMapping}
    (distinct : (columns.map ColumnMapping.sinkColumn).Nodup)
    (read : String → String)
    {column : ColumnMapping}
    (member : column ∈ columns) :
    ((columns.map ColumnMapping.sinkColumn).zip
        ((columns.map ColumnMapping.sourceColumn).map read)).lookup
          column.sinkColumn = some (read column.sourceColumn) := by
  induction columns with
  | nil => cases member
  | cons first columns inductionHypothesis =>
      rw [List.map_cons, List.nodup_cons] at distinct
      rw [List.map_cons, List.map_cons, List.map_cons, List.zip_cons_cons,
        List.lookup_cons]
      rcases List.mem_cons.mp member with rfl | later
      · simp
      · have other : (column.sinkColumn == first.sinkColumn) = false := by
          refine beq_eq_false_iff_ne.mpr fun same => distinct.1 ?_
          rw [← same]
          exact List.mem_map_of_mem later
        rw [other]
        exact inductionHypothesis distinct.2 later

/-- Each metadata column is set to what is read from its source column. -/
theorem lookup_assignments
    {tm : TableMapping}
    (distinct : Distinct tm)
    (embedVal : String)
    (read : String → String)
    {column : ColumnMapping}
    (member : column ∈ metadataColumns tm) :
    (tm.assignments embedVal (tm.metadataSources.map read)).lookup
        column.sinkColumn = some (read column.sourceColumn) := by
  rw [Distinct, List.nodup_cons] at distinct
  have other : (column.sinkColumn == tm.embedSink) = false := by
    refine beq_eq_false_iff_ne.mpr fun same => distinct.1 ?_
    rw [← same]
    exact List.mem_map_of_mem member
  rw [TableMapping.assignments, List.lookup_cons, other]
  exact lookup_zip_map distinct.2 read member

theorem mem_metadataSources
    {tm : TableMapping}
    {column : ColumnMapping}
    (member : column ∈ metadataColumns tm) :
    column.sourceColumn ∈ tm.metadataSources :=
  List.mem_map_of_mem member

/-! ## Rows over time -/

/-- An event of the row with this id, with the row before and after it.  Every
metadata column is shown.  The text may be left out of an update that did not
change it, and an old tuple shows the text or, under the default replica
identity, nothing but the key. -/
structure Sent (tm : TableMapping) (id : String) (before : Option SourceRow)
    (after : SourceRow) (event : ChangeEvent) (tuple : DecodedRow) :
    Prop where
  table : event.tableName = tm.sourceTable
  new : event.newRow = some tuple
  named : after tm.idSource = some id
  filled : ∃ text, text ≠ "" ∧ after tm.embedSource = some text
  showsId : tuple.getColumn tm.idSource = id
  showsMetadata : ∀ name ∈ tm.metadataSources,
    tuple.known? name = some (after name)
  showsText :
    event.op = .insert ∧
        tuple.known? tm.embedSource = some (after tm.embedSource) ∨
      event.op = .update ∧ ∃ previous, before = some previous ∧
        (tuple.known? tm.embedSource = some (after tm.embedSource) ∨
          tuple.isToast tm.embedSource = true ∧
            after tm.embedSource = previous tm.embedSource) ∧
        ∀ old ∈ event.oldRow, old.getColumn tm.embedSource = "" ∨
          old.known? tm.embedSource = some (previous tm.embedSource)

/-- Inserts and updates of one row, each with the row after it. -/
def Follows (tm : TableMapping) (id : String) :
    Option SourceRow → List (ChangeEvent × SourceRow) → Prop
  | _, [] => True
  | before, (event, after) :: history =>
      (∃ tuple, Sent tm id before after event tuple) ∧
        Follows tm id (some after) history

/-- The row at the end. -/
def current (before : Option SourceRow)
    (history : List (ChangeEvent × SourceRow)) : Option SourceRow :=
  (history.map fun entry => some entry.2).getLastD before

/-- No update that `prepare_upsert` takes to leave the text as it was changes a
metadata column. -/
def KeepsMetadata (tm : TableMapping) :
    Option SourceRow → List (ChangeEvent × SourceRow) → Prop
  | _, [] => True
  | before, (event, after) :: history =>
      (event.op = .update →
        ∀ tuple ∈ event.newRow, embedUnchanged tm event tuple = true →
          ∀ previous ∈ before, ∀ name ∈ tm.metadataSources,
            after name = previous name) ∧
        KeepsMetadata tm (some after) history

/-- `prepare_upsert` skips an update only if no mapped column differs from the
row before it. -/
def SkipsOnlyUnchanged (tm : TableMapping) :
    Option SourceRow → List (ChangeEvent × SourceRow) → Prop
  | _, [] => True
  | before, (event, after) :: history =>
      (event.op = .update → prepareUpsert tm event = none →
        ∀ previous ∈ before, ∀ name ∈ selectColumns tm,
          after name = previous name) ∧
        SkipsOnlyUnchanged tm (some after) history

variable {φ : Type}

/-- The sink has the row, and in each metadata column the value the row has
there, if that is not null. -/
def Stores (tm : TableMapping) (stored : Option (Record φ))
    (row : SourceRow) : Prop :=
  ∃ record, stored = some record ∧
    ∀ column ∈ metadataColumns tm, ∀ value,
      row column.sourceColumn = some value →
        record.columns column.sinkColumn = some value

section Steps

variable {tm : TableMapping}
variable {id : String}
variable {before : Option SourceRow}
variable {after : SourceRow}
variable {event : ChangeEvent}
variable {tuple : DecodedRow}

/-- The text is shown, or it is as it was and the update is skipped. -/
theorem Sent.getColumn_embedSource
    (sent : Sent tm id before after event tuple) :
    some (tuple.getColumn tm.embedSource) = after tm.embedSource ∨
      event.op = .update ∧ embedUnchanged tm event tuple = true := by
  obtain ⟨text, _, shown⟩ := sent.filled
  have read : tuple.known? tm.embedSource = some (after tm.embedSource) →
      some (tuple.getColumn tm.embedSource) = after tm.embedSource := by
    intro known
    rw [DecodedRow.getColumn_of_known? known, shown]
    rfl
  rcases sent.showsText with ⟨_, known⟩ | ⟨op, _, _, known | ⟨toast, _⟩, _⟩
  · exact .inl (read known)
  · exact .inl (read known)
  · exact .inr ⟨op, by simp [embedUnchanged, toast]⟩

/-- An update that is skipped has left the text as it was. -/
theorem Sent.embedSource_eq
    (sent : Sent tm id before after event tuple)
    (op : event.op = .update)
    (skipped : embedUnchanged tm event tuple = true) :
    ∀ previous ∈ before, after tm.embedSource = previous tm.embedSource := by
  intro previous held
  rcases sent.showsText with ⟨insert, _⟩ | ⟨_, other, same, shows, old⟩
  · rw [op] at insert
    cases insert
  rw [Option.mem_def.mp held] at same
  cases same
  rcases shows with known | ⟨_, kept⟩
  · -- The text is shown, so the old tuple must have shown it too.
    have visible : tuple.isToast tm.embedSource = false := by
      by_contra toast
      rw [Bool.not_eq_false] at toast
      rw [DecodedRow.known?_of_isToast toast] at known
      cases known
    rw [embedUnchanged, visible, Bool.false_or] at skipped
    cases first : event.oldRow with
    | none => simp [first] at skipped
    | some oldRow =>
        simp only [first, Bool.and_eq_true, bne_iff_ne, ne_eq,
          beq_iff_eq] at skipped
        rcases old oldRow first with blank | full
        · exact absurd blank skipped.1
        · have shown := DecodedRow.known?_of_getColumn skipped.1
          rw [full] at shown
          obtain ⟨text, _, present⟩ := sent.filled
          rw [Option.some.inj shown, skipped.2,
            DecodedRow.getColumn_of_known? known, present]
          rfl
  · exact kept

/-- The event is skipped, or planned as the upsert of the row after it. -/
theorem Sent.prepareUpsert_eq
    (sent : Sent tm id before after event tuple)
    (nonempty : id ≠ "")
    (kept : ¬(event.op = .update ∧ embedUnchanged tm event tuple = true)) :
    ∃ embedVal, prepareUpsert tm event =
      some
        { kind := .upsert
          tm
          idVal := id
          embedVal
          metaVals := tm.metadataSources.map tuple.getColumn } := by
  obtain ⟨text, filled, shown⟩ := sent.filled
  have read : tuple.getColumn tm.embedSource = text := by
    rcases sent.getColumn_embedSource with read | skipped
    · rw [shown] at read
      exact Option.some.inj read
    · exact absurd skipped kept
  refine ⟨text, prepareUpsert_eq_some_iff.mpr
    ⟨tuple, sent.new, kept, ?_, ?_, ?_⟩⟩
  · rw [sent.showsId]
    exact nonempty
  · rw [read]
    exact filled
  · rw [sent.showsId, read]

theorem Sent.prepareUpsert_eq_none_iff
    (sent : Sent tm id before after event tuple)
    (nonempty : id ≠ "") :
    prepareUpsert tm event = none ↔
      event.op = .update ∧ embedUnchanged tm event tuple = true := by
  constructor
  · intro skipped
    by_contra kept
    obtain ⟨embedVal, planned⟩ := sent.prepareUpsert_eq nonempty kept
    rw [planned] at skipped
    cases skipped
  · intro skipped
    simp [prepareUpsert, sent.new, skipped]

end Steps

/-! ## Updates that are dropped -/

section Histories

variable {tm : TableMapping}
variable {id : String}
variable {before : Option SourceRow}
variable {history : List (ChangeEvent × SourceRow)}

/-- Skipping is right about metadata exactly when it happens to be. -/
theorem skipsOnlyUnchanged_iff
    (nonempty : id ≠ "")
    (named : ∀ row ∈ before, row tm.idSource = some id)
    (follows : Follows tm id before history) :
    SkipsOnlyUnchanged tm before history ↔
      KeepsMetadata tm before history := by
  induction history generalizing before with
  | nil => exact Iff.rfl
  | cons entry history inductionHypothesis =>
      obtain ⟨event, after⟩ := entry
      obtain ⟨⟨tuple, sent⟩, later⟩ := follows
      have rest := inductionHypothesis
        (fun row held => by cases held; exact sent.named) later
      refine and_congr ?_ rest
      constructor
      · intro only op shown present skipped previous held name member
        rw [sent.new] at present
        cases present
        exact only op ((sent.prepareUpsert_eq_none_iff nonempty).mpr
          ⟨op, skipped⟩) previous held name (by simp [selectColumns, member])
      · intro keeps op skipped previous held name member
        have unchanged := ((sent.prepareUpsert_eq_none_iff nonempty).mp
          skipped).2
        simp only [selectColumns, List.mem_cons] at member
        rcases member with rfl | rfl | member
        · rw [sent.named, named previous held]
        · exact sent.embedSource_eq op unchanged previous held
        · exact keeps op tuple sent.new unchanged previous held name member

variable {mappings : List TableMapping}
variable {embed : String → List φ}

/-- The upsert of a row stores its metadata. -/
theorem stores_act
    (distinct : Distinct tm)
    {after : SourceRow}
    {tuple : DecodedRow}
    (shows : ∀ name ∈ tm.metadataSources,
      tuple.known? name = some (after name))
    (embedVal : String)
    (stored : Option (Record φ)) :
    Stores tm
      (BatchEvent.act embed (tm.rowKey id) stored
        { kind := .upsert
          tm
          idVal := id
          embedVal
          metaVals := tm.metadataSources.map tuple.getColumn })
      after := by
  refine ⟨_, if_pos rfl, fun column member value held => ?_⟩
  have read : tuple.getColumn column.sourceColumn = value := by
    rw [DecodedRow.getColumn_of_known? (shows _ (mem_metadataSources member)),
      held]
    rfl
  simp [Record.assign, lookup_assignments distinct embedVal _ member, read]

/-- The sink keeps up with a row whose metadata changes with its text. -/
theorem stores_performAll
    (mapped : mappings.find? (fun other =>
      other.sourceTable = tm.sourceTable) = some tm)
    (distinct : Distinct tm)
    (nonempty : id ≠ "")
    (follows : Follows tm id before history)
    (keeps : KeepsMetadata tm before history)
    {stored : Option (Record φ)}
    (initial : ∀ row ∈ before, Stores tm stored row) :
    ∀ row ∈ current before history,
      Stores tm
        ((plan mappings (history.map Prod.fst)).foldl
          (BatchEvent.act embed (tm.rowKey id)) stored) row := by
  induction history generalizing before stored with
  | nil => exact initial
  | cons entry history inductionHypothesis =>
      obtain ⟨event, after⟩ := entry
      obtain ⟨⟨tuple, sent⟩, later⟩ := follows
      have last : current before ((event, after) :: history) =
          current (some after) history := by
        simp only [current, List.map_cons, List.getLastD_cons]
      have found : mappings.find? (fun other =>
          other.sourceTable = event.tableName) = some tm := by
        rw [sent.table]
        exact mapped
      have planned := planEvent_eq_prepareUpsert found
        (sent.showsText.imp And.left And.left)
      rw [last, List.map_cons, plan, List.filterMap_cons, planned, ← plan]
      by_cases skipped :
          event.op = .update ∧ embedUnchanged tm event tuple = true
      · rw [(sent.prepareUpsert_eq_none_iff nonempty).mpr skipped]
        refine inductionHypothesis later keeps.2 fun row held => ?_
        cases held
        -- The row before the update has the same metadata.
        rcases sent.showsText with ⟨insert, _⟩ | ⟨_, previous, start, _⟩
        · rw [skipped.1] at insert
          cases insert
        obtain ⟨record, present, values⟩ := initial previous start
        refine ⟨record, present, fun column member value shown => ?_⟩
        refine values column member value ?_
        rw [← keeps.1 skipped.1 tuple sent.new skipped.2 previous start _
          (mem_metadataSources member)]
        exact shown
      · obtain ⟨embedVal, upsert⟩ := sent.prepareUpsert_eq nonempty skipped
        rw [upsert]
        refine inductionHypothesis later keeps.2 fun row held => ?_
        cases held
        exact stores_act distinct sent.showsMetadata embedVal stored

/-- If no update changes metadata while its text is taken to be unchanged,
every skipped update changed nothing, and after any batches the sink has the
metadata of the row. -/
theorem stores_of_keepsMetadata
    (embed : String → List φ)
    (filled : ∀ text, embed text ≠ [])
    (mapped : mappings.find? (fun other =>
      other.sourceTable = tm.sourceTable) = some tm)
    (distinct : Distinct tm)
    (nonempty : id ≠ "")
    (named : ∀ row ∈ before, row tm.idSource = some id)
    (follows : Follows tm id before history)
    (keeps : KeepsMetadata tm before history)
    {records : Records φ}
    (initial : ∀ row ∈ before, Stores tm (records (tm.rowKey id)) row)
    {batches : List (Environment φ × List ChangeEvent)}
    (division : (batches.map Prod.snd).flatten = history.map Prod.fst)
    (answered : ∀ batch ∈ batches, Answers embed batch.1 ∧
      (callBatch batch.1 mappings batch.2).returned = true) :
    SkipsOnlyUnchanged tm before history ∧
      ∀ row ∈ current before history,
        Stores tm (records.afterBatches mappings batches (tm.rowKey id))
          row := by
  refine ⟨(skipsOnlyUnchanged_iff nonempty named follows).mpr keeps, ?_⟩
  rw [afterBatches_eq filled mappings batches answered, division,
    Records.performAll_apply]
  exact stores_performAll mapped distinct nonempty follows keeps initial

end Histories

/-! ## Columns an update does not carry -/

/-- A column that is unchanged-toast stays as it was, and a column that is null
becomes null.  A value is `none` where there is no column and `some none`
where it is null. -/
def Frames (tm : TableMapping) (tuple : DecodedRow)
    (before after : ColumnMapping → Option (Option String)) : Prop :=
  ∀ column ∈ metadataColumns tm,
    (tuple.isToast column.sourceColumn = true →
      after column = before column) ∧
    (tuple.known? column.sourceColumn = some none →
      after column = some none)

/-- The metadata of a row of the sink. -/
def stored (record : Record φ) (column : ColumnMapping) :
    Option (Option String) :=
  some (record.columns column.sinkColumn)

/-- The metadata of a staged row. -/
def staged (rowData : RowData) (column : ColumnMapping) :
    Option (Option String) :=
  rowData.lookup column.sourceColumn

/-- An update of the row whose text the sink does not take to be unchanged. -/
structure Rewrites (tm : TableMapping) (id : String) (event : ChangeEvent)
    (tuple : DecodedRow) : Prop where
  op : event.op = .update
  table : event.tableName = tm.sourceTable
  new : event.newRow = some tuple
  changed : embedUnchanged tm event tuple = false
  named : tuple.getColumn tm.idSource = id
  nonempty : id ≠ ""
  filled : tuple.getColumn tm.embedSource ≠ ""

/-- Nothing is lost: a column that is left out was empty before, and none is
null. -/
def Unharmed (tm : TableMapping) (tuple : DecodedRow) (before : Record φ) :
    Prop :=
  ∀ column ∈ metadataColumns tm,
    (tuple.isToast column.sourceColumn = true →
      before.columns column.sinkColumn = some "") ∧
    tuple.known? column.sourceColumn ≠ some none

instance (tm : TableMapping) (tuple : DecodedRow) (before : Record φ) :
    Decidable (Unharmed tm tuple before) :=
  inferInstanceAs (Decidable (∀ column ∈ metadataColumns tm, _))

section Frame

variable {tm : TableMapping}
variable {tuple : DecodedRow}

theorem getColumn_of_isToast
    {name : String}
    (toast : tuple.isToast name = true) :
    tuple.getColumn name = "" := by
  by_contra filled
  have known := DecodedRow.known?_of_getColumn filled
  rw [DecodedRow.known?_of_isToast toast] at known
  cases known

/-- An upsert frames exactly what was empty. -/
theorem frames_assign_iff
    (distinct : Distinct tm)
    (embedVal : String)
    (embedding : List φ)
    (before : Record φ) :
    Frames tm tuple (stored before)
        (stored (before.assign
          (tm.assignments embedVal (tm.metadataSources.map tuple.getColumn))
          embedding)) ↔
      Unharmed tm tuple before := by
  refine forall₂_congr fun column member => ?_
  have after : stored (before.assign
      (tm.assignments embedVal (tm.metadataSources.map tuple.getColumn))
      embedding) column = some (some (tuple.getColumn column.sourceColumn)) := by
    simp [stored, Record.assign, lookup_assignments distinct embedVal _ member]
  rw [after]
  refine and_congr (forall_congr' fun toast => ?_) ?_
  · rw [getColumn_of_isToast toast, stored, Option.some_inj, eq_comm]
  · simp

/-- A merge frames every column. -/
theorem frames_merge
    (tuple : DecodedRow)
    (merged : RowData) :
    Frames tm tuple (staged merged)
      (staged (mergeKnownColumns merged tuple tm)) := by
  intro column member
  have selected : column.sourceColumn ∈ selectColumns tm := by
    simp [selectColumns, mem_metadataSources member]
  simp only [staged, lookup_mergeKnownColumns, if_pos selected]
  constructor
  · intro toast
    rw [DecodedRow.known?_of_isToast toast, Option.none_or]
  · intro null
    rw [null, Option.some_or]

end Frame

/-- An update whose text changed leaves the metadata columns it does not carry
as they were exactly when they were empty, and stores no null as null.  The
merge into a staged row does both for every update. -/
theorem frames_callBatch_iff
    (embed : String → List φ)
    (filled : ∀ text, embed text ≠ [])
    {mappings : List TableMapping}
    {tm : TableMapping}
    (mapped : mappings.find? (fun other =>
      other.sourceTable = tm.sourceTable) = some tm)
    (distinct : Distinct tm)
    {id : String}
    {event : ChangeEvent}
    {tuple : DecodedRow}
    (rewrites : Rewrites tm id event tuple)
    {records : Records φ}
    {before : Record φ}
    (present : records (tm.rowKey id) = some before)
    {environment : Environment φ}
    (answers : Answers embed environment)
    (returned : (callBatch environment mappings [event]).returned = true) :
    (∃ after,
      records.after (callBatch environment mappings [event]) (tm.rowKey id) =
          some after ∧
        (Frames tm tuple (stored before) (stored after) ↔
          Unharmed tm tuple before)) ∧
      ∀ merged, Frames tm tuple (staged merged)
        (staged (mergeKnownColumns merged tuple tm)) := by
  have found : mappings.find? (fun other =>
      other.sourceTable = event.tableName) = some tm := by
    rw [rewrites.table]
    exact mapped
  have prepared : prepareUpsert tm event =
      some
        { kind := .upsert
          tm
          idVal := id
          embedVal := tuple.getColumn tm.embedSource
          metaVals := tm.metadataSources.map tuple.getColumn } := by
    rw [prepareUpsert_eq_some_iff]
    refine ⟨tuple, rewrites.new, by simp [rewrites.changed], ?_,
      rewrites.filled, by rw [rewrites.named]⟩
    rw [rewrites.named]
    exact rewrites.nonempty
  have planned := (planEvent_eq_prepareUpsert found (.inr rewrites.op)).trans
    prepared
  rw [answers.after_callBatch filled mappings [event] returned, plan,
    List.filterMap_cons_some planned, Records.performAll_apply, present]
  refine ⟨⟨_, if_pos rfl, ?_⟩, frames_merge tuple⟩
  exact frames_assign_iff distinct _ _ before

/-! ## Samples -/

/-- A row of the table of articles. -/
def articleRow (id body topic : String) : SourceRow := fun name =>
  if name = "id" then some id
  else if name = "body" then some body
  else if name = "topic" then some topic
  else none

/-- An empty sink. -/
def noRecords : Records Nat := fun _ => none

/-- An article is inserted, gets another text and topic, and is then updated
without a change, its text being toasted. -/
def revisedArticle : List (ChangeEvent × SourceRow) :=
  [(articleInsert "1" "old" "a", articleRow "1" "old" "a"),
    (articleUpdate none (articleTuple .updateNew "1" "new" "b"),
      articleRow "1" "new" "b"),
    (articleUpdate none
      { kind := .updateNew
        columns := [{ name := "id", textValue := "1" },
          { name := "body", isUnchangedToast := true },
          { name := "topic", textValue := "b" }] },
      articleRow "1" "new" "b")]

/-- An article is inserted and then moved to another topic.  The old tuple
shows its text. -/
def movedArticle : List (ChangeEvent × SourceRow) :=
  [(articleInsert "1" "old" "a", articleRow "1" "old" "a"),
    (articleUpdate (some (articleTuple .updateOld "1" "old" "a"))
      (articleTuple .updateNew "1" "old" "b"),
      articleRow "1" "old" "b")]

theorem follows_revisedArticle :
    Follows articles "1" none revisedArticle :=
  ⟨⟨_, rfl, rfl, rfl, ⟨"old", by decide, rfl⟩, rfl, by decide,
      .inl ⟨rfl, rfl⟩⟩,
    ⟨_, rfl, rfl, rfl, ⟨"new", by decide, rfl⟩, rfl, by decide,
      .inr ⟨rfl, _, rfl, .inl rfl, by simp [articleUpdate]⟩⟩,
    ⟨_, rfl, rfl, rfl, ⟨"new", by decide, rfl⟩, rfl, by decide,
      .inr ⟨rfl, _, rfl, .inr ⟨rfl, rfl⟩, by simp [articleUpdate]⟩⟩, trivial⟩

/-- The sink follows the topic of an article that changes with its text. -/
theorem stores_revisedArticle :
    SkipsOnlyUnchanged articles none revisedArticle ∧
      Stores articles
        (noRecords.afterBatches [articles]
          [(steady sampleEmbed, (revisedArticle.map Prod.fst).take 2),
            (steady sampleEmbed, (revisedArticle.map Prod.fst).drop 2)]
          (articles.rowKey "1"))
        (articleRow "1" "new" "b") := by
  have keeps : KeepsMetadata articles none revisedArticle := by
    refine ⟨(fun op => by cases op), fun _ tuple shown skipped => ?_,
      fun _ _ _ _ previous held name _ => ?_, trivial⟩
    · cases shown
      exact absurd skipped (by decide)
    · cases held
      rfl
  have mapped : [articles].find? (fun other =>
      other.sourceTable = articles.sourceTable) = some articles := by decide
  have initial : ∀ row ∈ (none : Option SourceRow),
      Stores articles (noRecords (articles.rowKey "1")) row := by simp
  have division : ([(steady sampleEmbed,
        (revisedArticle.map Prod.fst).take 2),
      (steady sampleEmbed, (revisedArticle.map Prod.fst).drop 2)].map
        Prod.snd).flatten = revisedArticle.map Prod.fst := by decide
  obtain ⟨only, stores⟩ := stores_of_keepsMetadata sampleEmbed
    (by simp [sampleEmbed]) mapped (by decide) (by decide) (by simp)
    follows_revisedArticle keeps initial division (by
      simp only [List.mem_cons, List.not_mem_nil, or_false]
      rintro batch (rfl | rfl)
      · exact ⟨answers_steady sampleEmbed, callBatch_steady_returned _ _⟩
      · exact ⟨answers_steady sampleEmbed, callBatch_steady_returned _ _⟩)
  exact ⟨only, stores _ rfl⟩

/-- The sink misses the new topic of an article whose text is as before. -/
theorem not_stores_movedArticle :
    Follows articles "1" none movedArticle ∧
      ¬SkipsOnlyUnchanged articles none movedArticle ∧
      current none movedArticle = some (articleRow "1" "old" "b") ∧
      ¬Stores articles
        (noRecords.afterBatches [articles]
          [(steady sampleEmbed, movedArticle.map Prod.fst)]
          (articles.rowKey "1"))
        (articleRow "1" "old" "b") := by
  refine ⟨?_, fun only => ?_, rfl, ?_⟩
  · exact ⟨⟨_, rfl, rfl, rfl, ⟨"old", by decide, rfl⟩, rfl, by decide,
        .inl ⟨rfl, rfl⟩⟩,
      ⟨_, rfl, rfl, rfl, ⟨"old", by decide, rfl⟩, rfl, by decide,
        .inr ⟨rfl, _, rfl, .inl rfl, fun old shown => by
          cases shown
          exact .inr rfl⟩⟩, trivial⟩
  · have same := only.2.1 rfl (by decide) _ rfl "topic" (by decide)
    exact absurd same (by decide)
  · rintro ⟨record, present, values⟩
    have topic := values ⟨"topic", "topic", "metadata"⟩ (by decide) "b" rfl
    have shown : (noRecords.afterBatches [articles]
        [(steady sampleEmbed, movedArticle.map Prod.fst)]
        (articles.rowKey "1")).map (fun record => record.columns "topic") =
          some (some "a") := by
      decide
    rw [present, Option.map_some, topic] at shown
    exact absurd shown (by decide)

/-- An article with a new text, whose topic is left out as unchanged. -/
def toastTuple : DecodedRow :=
  { kind := .updateNew
    columns := [{ name := "id", textValue := "1" },
      { name := "body", textValue := "new" },
      { name := "topic", isUnchangedToast := true }] }

theorem rewrites_toastTuple :
    Rewrites articles "1" (articleUpdate none toastTuple) toastTuple :=
  ⟨rfl, rfl, rfl, rfl, rfl, by decide, by decide⟩

/-- The article in the sink. -/
def topicRecord (topic : String) : Record Nat :=
  { columns := fun column => if column = "topic" then some topic else none }

def topicRecords (topic : String) : Records Nat :=
  fun _ => some (topicRecord topic)

/-- An empty topic stays as it is. -/
theorem frames_emptyTopic :
    ∃ after,
      (topicRecords "").after
          (callBatch (steady sampleEmbed) [articles]
            [articleUpdate none toastTuple]) (articles.rowKey "1") =
        some after ∧
      Frames articles toastTuple (stored (topicRecord "")) (stored after) := by
  have mapped : [articles].find? (fun other =>
      other.sourceTable = articles.sourceTable) = some articles := by decide
  have held : topicRecords "" (articles.rowKey "1") =
      some (topicRecord "") := rfl
  obtain ⟨⟨after, present, framed⟩, _⟩ := frames_callBatch_iff sampleEmbed
    (by simp [sampleEmbed]) mapped (by decide) rewrites_toastTuple held
    (answers_steady sampleEmbed) (callBatch_steady_returned _ _)
  exact ⟨after, present, framed.mpr (by decide)⟩

/-- Any other topic is lost. -/
theorem not_frames_topic :
    ∃ after,
      (topicRecords "a").after
          (callBatch (steady sampleEmbed) [articles]
            [articleUpdate none toastTuple]) (articles.rowKey "1") =
        some after ∧
      ¬Frames articles toastTuple (stored (topicRecord "a"))
        (stored after) := by
  refine ⟨_, rfl, fun framed => ?_⟩
  have kept := (framed ⟨"topic", "topic", "metadata"⟩ (by decide)).1 rfl
  exact absurd kept (by decide)

end Metadata
end Sink
end Walkrie
