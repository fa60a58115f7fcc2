import Walkrie.Sink.Isolation

/-!
# The rows behind the records

A sink table seen as a map from keys to records is what the statements of the
pgvector sink make of its rows.  The rows with a key are none where there is no
record and otherwise one, which shows the record's columns and vector; each
write, on the rows and on the records, keeps it that way.  So what is said of
records holds of the rows that PostgreSQL stores, as long as ids and labels
have no NUL byte; texts and metadata are stored up to their first one.
-/

namespace Walkrie
namespace Sink

open PgSqlBuilder PgEmbeddingSink

variable {φ : Type}

/-- An id and a label without NUL bytes. -/
def WholeKey (key : String × Option String) : Prop :=
  ∀ text ∈ key.1 :: key.2.toList, '\x00' ∉ text.toList

/-- The columns of a sink table that all its mappings name alike. -/
structure Layout where
  idSink : String
  discriminatorSink : Option String
  sinkColumn : String

namespace Layout

variable (layout : Layout)

/-- The columns of the primary key. -/
def keyColumns : List String :=
  layout.idSink :: layout.discriminatorSink.toList

/-- The key has a label if the table has a column for it, and is bound as it
is. -/
def HasKey (key : String × Option String) : Prop :=
  key.2.isSome = layout.discriminatorSink.isSome ∧ WholeKey key

/-- What a row with this key has in the columns of the key. -/
def conditions (key : String × Option String) : List (String × String) :=
  layout.keyColumns.zip (key.1 :: key.2.toList)

/-- A mapping of this table, which names no column twice. -/
structure Admits (tm : TableMapping) : Prop where
  idSink : tm.idSink = layout.idSink
  discriminatorSink : scopeColumns tm = layout.discriminatorSink.toList
  distinct : (sinkCols layout.sinkColumn tm).Nodup

/-- A row shows a record: the columns that were set, defaults elsewhere, and
the vector. -/
structure Shows (format : φ → String) (defaults row : Sql.Row String String)
    (record : Record φ) : Prop where
  columns : ∀ column, column ∉ layout.keyColumns →
    column ≠ layout.sinkColumn →
    row column = ((record.columns column).map cStr).or (defaults column)
  embedding : row layout.sinkColumn =
    some (cStr (vecLiteral format record.embedding))

/-- The rows with one key, and the record there. -/
def ShowsAt (format : φ → String) (defaults : Sql.Row String String)
    (rows : Rows) : Option (Record φ) → Prop
  | none => rows = 0
  | some record =>
      ∃ row, rows = {row} ∧ layout.Shows format defaults row record

/-- The rows of a table show the records. -/
def Represents (format : φ → String) (defaults : Sql.Row String String)
    (rows : Rows) (records : Records φ) : Prop :=
  ∀ key, layout.HasKey key →
    layout.ShowsAt format defaults
      (Sql.select (layout.conditions key) rows) (records key)

variable {layout : Layout}
variable {tm : TableMapping}
variable {format : φ → String}

/-! ## Keys -/

/-- A key without NUL bytes is bound as it is. -/
theorem keyParams_of_wholeKey
    {idVal : String}
    (whole : WholeKey (tm.rowKey idVal)) :
    keyParams tm idVal = idVal :: tm.discriminator.toList := by
  unfold WholeKey TableMapping.rowKey TableMapping.discriminator at whole
  unfold keyParams scopeParams TableMapping.discriminator
  cases labelled : tm.hasDiscriminator with
  | false => simp [cStr_of_notMem (whole idVal (by simp))]
  | true =>
      simp [cStr_of_notMem (whole idVal (by simp)),
        cStr_of_notMem (whole tm.discriminatorLabel (by simp [labelled]))]

theorem Admits.keyColumns_eq (admits : layout.Admits tm) :
    PgSqlBuilder.keyColumns tm = layout.keyColumns := by
  rw [PgSqlBuilder.keyColumns, keyColumns, admits.idSink,
    admits.discriminatorSink]

/-- A mapping of the table has a label if the table has a column for it. -/
theorem Admits.isSome_discriminator (admits : layout.Admits tm) :
    tm.discriminator.isSome = layout.discriminatorSink.isSome := by
  have columns := admits.discriminatorSink
  unfold TableMapping.discriminator
  unfold scopeColumns at columns
  cases labelled : tm.hasDiscriminator <;>
    cases column : layout.discriminatorSink <;>
      simp_all

theorem Admits.hasKey
    (admits : layout.Admits tm)
    {idVal : String}
    (whole : WholeKey (tm.rowKey idVal)) :
    layout.HasKey (tm.rowKey idVal) :=
  ⟨admits.isSome_discriminator, whole⟩

theorem Admits.conditions_eq
    (admits : layout.Admits tm)
    {idVal : String}
    (whole : WholeKey (tm.rowKey idVal)) :
    layout.conditions (tm.rowKey idVal) =
      (PgSqlBuilder.keyColumns tm).zip (keyParams tm idVal) := by
  rw [conditions, admits.keyColumns_eq, keyParams_of_wholeKey whole,
    TableMapping.rowKey]

/-- A row meets the conditions of one key only. -/
theorem key_eq_of_meets
    {key other : String × Option String}
    (has : layout.HasKey key)
    (hasOther : layout.HasKey other)
    {row : Sql.Row String String}
    (meets : Sql.Meets (layout.conditions key) row)
    (meetsOther : Sql.Meets (layout.conditions other) row) :
    key = other := by
  obtain ⟨id, label⟩ := key
  obtain ⟨otherId, otherLabel⟩ := other
  replace has := has.1
  replace hasOther := hasOther.1
  unfold Sql.Meets conditions keyColumns at meets meetsOther
  cases column : layout.discriminatorSink <;> cases label <;>
    cases otherLabel <;> simp_all

theorem mem_keyColumns_of_mem_conditions
    {key : String × Option String}
    {condition : String × String}
    (member : condition ∈ layout.conditions key) :
    condition.1 ∈ layout.keyColumns :=
  (List.of_mem_zip member).1

/-- Every column of the key has a condition. -/
theorem exists_mem_conditions
    {key : String × Option String}
    (has : layout.HasKey key)
    {column : String}
    (member : column ∈ layout.keyColumns) :
    ∃ value, (column, value) ∈ layout.conditions key := by
  obtain ⟨id, label⟩ := key
  replace has := has.1
  unfold keyColumns at member
  unfold conditions keyColumns
  cases named : layout.discriminatorSink <;> cases label <;> simp_all
  grind

/-! ## The row an upsert proposes -/

/-- The row an upsert would insert. -/
def proposed (layout : Layout) (format : φ → String)
    (defaults : Sql.Row String String) (tm : TableMapping)
    (idVal embedVal : String) (metaVals : List String) (embedding : List φ) :
    Sql.Row String String :=
  Sql.excluded defaults (sinkCols layout.sinkColumn tm)
    (upsertParams format tm idVal embedVal metaVals embedding)

section Proposed

variable {metaVals : List String}

theorem lookup_map_cStr
    (assignments : List (String × String))
    (column : String) :
    (assignments.map (Prod.map id cStr)).lookup column =
      (assignments.lookup column).map cStr := by
  induction assignments with
  | nil => rfl
  | cons assignment assignments inductionHypothesis =>
      rw [List.map_cons, List.lookup_cons, List.lookup_cons]
      cases same : column == assignment.1 <;>
        simp [same, inductionHypothesis]

theorem lookup_assignments_eq_none_iff
    (complete : metaVals.length = tm.metadataSinks.length)
    {embedVal column : String} :
    (tm.assignments embedVal metaVals).lookup column = none ↔
      column ∉ tm.embedSink :: tm.metadataSinks := by
  have columns : (tm.assignments embedVal metaVals).map Prod.fst =
      tm.embedSink :: tm.metadataSinks := by
    rw [TableMapping.assignments, List.map_cons,
      List.map_fst_zip complete.ge]
  rw [List.lookup_eq_none_iff, ← columns]
  simp only [bne_iff_ne, List.mem_map, not_exists, not_and]
  exact forall₂_congr fun _ _ => ne_comm

theorem lookup_keyParams_eq_none
    {column : String}
    (free : column ∉ PgSqlBuilder.keyColumns tm)
    (idVal : String) :
    ((PgSqlBuilder.keyColumns tm).zip
      (keyParams tm idVal)).lookup column = none := by
  refine List.lookup_eq_none_iff.mpr fun pair member =>
    bne_iff_ne.mpr fun same => free ?_
  rw [same]
  exact (List.of_mem_zip member).1

variable (format : φ → String)
variable (defaults : Sql.Row String String)
variable (idVal embedVal : String)
variable (embedding : List φ)

/-- A column the upsert assigns has what it is assigned, and any other its
default. -/
theorem Admits.proposed_apply
    (admits : layout.Admits tm)
    (complete : metaVals.length = tm.metadataSinks.length)
    {column : String}
    (free : column ∉ layout.keyColumns)
    (scalar : column ≠ layout.sinkColumn) :
    layout.proposed format defaults tm idVal embedVal metaVals embedding
        column =
      (((tm.assignments embedVal metaVals).lookup column).map cStr).or
        (defaults column) := by
  have other : (column == layout.sinkColumn) = false :=
    beq_eq_false_iff_ne.mpr scalar
  rw [← admits.keyColumns_eq] at free
  rw [proposed, Sql.excluded, zip_sinkCols complete, List.lookup_append,
    lookup_keyParams_eq_none free, Option.none_or, List.lookup_append,
    lookup_map_cStr, List.lookup_cons, other]
  simp

theorem Admits.proposed_sinkColumn
    (admits : layout.Admits tm)
    (complete : metaVals.length = tm.metadataSinks.length) :
    layout.proposed format defaults tm idVal embedVal metaVals embedding
        layout.sinkColumn = some (cStr (vecLiteral format embedding)) := by
  have distinct := admits.distinct
  rw [sinkCols, updateCols, ← List.cons_append] at distinct
  have free : layout.sinkColumn ∉ PgSqlBuilder.keyColumns tm :=
    fun member => List.disjoint_of_nodup_append distinct member (by simp)
  have unassigned : layout.sinkColumn ∉ tm.embedSink :: tm.metadataSinks :=
    fun member => List.disjoint_of_nodup_append
      distinct.of_append_right member (by simp)
  rw [proposed, Sql.excluded, zip_sinkCols complete, List.lookup_append,
    lookup_keyParams_eq_none free, Option.none_or, List.lookup_append,
    lookup_map_cStr,
    (lookup_assignments_eq_none_iff complete).mpr unassigned]
  simp

/-- The proposed row has the key of its action. -/
theorem Admits.meets_proposed
    (admits : layout.Admits tm)
    {idVal : String}
    (whole : WholeKey (tm.rowKey idVal))
    (metaVals : List String) :
    Sql.Meets (layout.conditions (tm.rowKey idVal))
      (layout.proposed format defaults tm idVal embedVal metaVals
        embedding) := by
  have id : layout.proposed format defaults tm idVal embedVal metaVals
      embedding tm.idSink = some (cStr idVal) := by
    simp [proposed, Sql.excluded, sinkCols, PgSqlBuilder.keyColumns,
      upsertParams, keyParams]
  rw [admits.conditions_eq whole, PgSqlBuilder.keyColumns, keyParams,
    List.zip_cons_cons]
  refine List.forall_mem_cons.mpr ⟨id, ?_⟩
  unfold scopeColumns scopeParams
  cases labelled : tm.hasDiscriminator with
  | false => simp
  | true =>
      simpa [proposed] using excluded_discriminatorSink labelled
        admits.distinct defaults idVal embedVal metaVals embedding

end Proposed

/-! ## One write -/

theorem Admits.keyed
    (admits : layout.Admits tm)
    {key : String × Option String}
    {condition : String × String}
    (member : condition ∈ layout.conditions key) :
    condition.1 ∈ PgSqlBuilder.keyColumns tm ∧
      condition.1 ∉ updateCols layout.sinkColumn tm := by
  have named := mem_keyColumns_of_mem_conditions member
  rw [← admits.keyColumns_eq] at named
  exact ⟨named, List.disjoint_of_nodup_append admits.distinct named⟩

theorem Admits.scopes_iff
    (admits : layout.Admits tm)
    {key : String × Option String}
    (has : layout.HasKey key) :
    tm.Scopes key.2 ↔ key.2 = tm.discriminator := by
  have own := admits.isSome_discriminator
  unfold TableMapping.Scopes
  refine or_iff_right_of_imp fun unlabelled => ?_
  rw [unlabelled, Option.isSome_none] at own
  rw [unlabelled, ← Option.not_isSome_iff_eq_none, has.1, ← own]
  decide

/-- A row with a key meets the conditions of a truncate if it is in scope. -/
theorem Admits.meets_scope_iff
    (admits : layout.Admits tm)
    {idVal : String}
    (whole : WholeKey (tm.rowKey idVal))
    {key : String × Option String}
    (has : layout.HasKey key)
    {row : Sql.Row String String}
    (meets : Sql.Meets (layout.conditions key) row) :
    Sql.Meets ((scopeColumns tm).zip (scopeParams tm)) row ↔
      tm.Scopes key.2 := by
  have params : scopeParams tm = tm.discriminator.toList :=
    (List.cons.inj (keyParams_of_wholeKey whole)).2
  have own := admits.isSome_discriminator
  rw [admits.scopes_iff has, admits.discriminatorSink, params]
  obtain ⟨id, label⟩ := key
  replace has := has.1
  unfold Sql.Meets conditions keyColumns at *
  cases column : layout.discriminatorSink <;> cases label <;>
    cases labelled : tm.discriminator <;> simp_all

/-- A row with a key meets the conditions of a delete if the id is its own and
it is in scope. -/
theorem Admits.meets_key_iff
    (admits : layout.Admits tm)
    {idVal : String}
    (whole : WholeKey (tm.rowKey idVal))
    {key : String × Option String}
    (has : layout.HasKey key)
    {row : Sql.Row String String}
    (meets : Sql.Meets (layout.conditions key) row) :
    Sql.Meets ((PgSqlBuilder.keyColumns tm).zip (keyParams tm idVal)) row ↔
      key.1 = idVal ∧ tm.Scopes key.2 := by
  have id : row tm.idSink = some key.1 := by
    rw [admits.idSink]
    exact meets _ List.mem_cons_self
  have bound : cStr idVal = idVal :=
    (List.cons.inj (keyParams_of_wholeKey whole)).1
  rw [PgSqlBuilder.keyColumns, keyParams, List.zip_cons_cons, bound,
    ← admits.meets_scope_iff whole has meets]
  unfold Sql.Meets
  rw [List.forall_mem_cons]
  simp [id]

theorem ShowsAt.discard
    {defaults : Sql.Row String String}
    {rows : Rows}
    {record : Option (Record φ)}
    (shown : layout.ShowsAt format defaults rows record)
    (deletes : Prop)
    [Decidable deletes] :
    layout.ShowsAt format defaults (if deletes then 0 else rows)
      (if deletes then none else record) := by
  split
  · rfl
  · exact shown

/-- A row with the key of an upsert is in conflict with it. -/
theorem Admits.conflicts_proposed
    (admits : layout.Admits tm)
    {defaults : Sql.Row String String}
    {idVal : String}
    (whole : WholeKey (tm.rowKey idVal))
    (embedVal : String)
    (metaVals : List String)
    (embedding : List φ)
    {row : Sql.Row String String}
    (meets : Sql.Meets (layout.conditions (tm.rowKey idVal)) row) :
    Sql.Conflicts (PgSqlBuilder.keyColumns tm)
      (layout.proposed format defaults tm idVal embedVal metaVals embedding)
      row := by
  intro column member
  rw [admits.keyColumns_eq] at member
  obtain ⟨value, named⟩ :=
    exists_mem_conditions (admits.hasKey whole) member
  have proposes := admits.meets_proposed format defaults embedVal embedding
    whole metaVals _ named
  rw [meets _ named, proposes]
  exact ⟨Option.some_ne_none _, rfl⟩

section Writes

variable {defaults : Sql.Row String String}
variable {key : String × Option String}

/-- An upsert only concerns the rows with its key. -/
theorem Admits.select_upsert
    (admits : layout.Admits tm)
    {idVal : String}
    (whole : WholeKey (tm.rowKey idVal))
    (has : layout.HasKey key)
    (embedVal : String)
    (metaVals : List String)
    (embedding : List φ)
    (rows : Rows) :
    Sql.select (layout.conditions key)
        (Sql.execute defaults rows (buildUpsertSql layout.sinkColumn tm)
          (upsertParams format tm idVal embedVal metaVals embedding)) =
      if tm.rowKey idVal = key then
        Sql.execute defaults (Sql.select (layout.conditions key) rows)
          (buildUpsertSql layout.sinkColumn tm)
          (upsertParams format tm idVal embedVal metaVals embedding)
      else Sql.select (layout.conditions key) rows := by
  have proposes := admits.meets_proposed format defaults embedVal embedding
    whole metaVals
  split <;> rename_i same
  · subst same
    exact Sql.select_upsert_self (fun _ => admits.keyed) proposes
  · refine Sql.select_upsert_other (fun _ => admits.keyed) ?_ ?_
    · intro condition member
      obtain ⟨value, named⟩ := exists_mem_conditions (admits.hasKey whole)
        (mem_keyColumns_of_mem_conditions member)
      have filled := proposes _ named
      rw [proposed] at filled
      rw [filled]
      exact Option.some_ne_none _
    · exact fun meets => same
        (key_eq_of_meets (admits.hasKey whole) has proposes meets)

/-- The row an upsert leaves shows the record it leaves. -/
theorem Admits.showsAt_upsert
    (admits : layout.Admits tm)
    {metaVals : List String}
    (complete : metaVals.length = tm.metadataSinks.length)
    {idVal : String}
    (whole : WholeKey (tm.rowKey idVal))
    (embedVal : String)
    (embedding : List φ)
    {rows : Rows}
    (keyed : ∀ row ∈ rows,
      Sql.Meets (layout.conditions (tm.rowKey idVal)) row)
    {record : Option (Record φ)}
    (shown : layout.ShowsAt format defaults rows record) :
    layout.ShowsAt format defaults
      (Sql.execute defaults rows (buildUpsertSql layout.sinkColumn tm)
        (upsertParams format tm idVal embedVal metaVals embedding))
      (some ((record.getD {}).assign (tm.assignments embedVal metaVals)
        embedding)) := by
  have vector := admits.proposed_sinkColumn format defaults idVal embedVal
    embedding complete
  cases record with
  | none =>
      cases shown
      refine ⟨_, Sql.execute_upsert_zero, fun column free scalar => ?_,
        vector⟩
      rw [← proposed, admits.proposed_apply format defaults idVal embedVal
        embedding complete free scalar]
      simp [Record.assign]
  | some record =>
      obtain ⟨row, rfl, shows⟩ := shown
      have meets := keyed row (Multiset.mem_singleton_self row)
      refine ⟨_, Sql.execute_upsert_singleton
        (admits.conflicts_proposed whole embedVal metaVals embedding
          meets), ?_,
        (if_pos (by simp [updateCols])).trans vector⟩
      intro column free scalar
      have assigned : column ∈ updateCols layout.sinkColumn tm ↔
          column ∈ tm.embedSink :: tm.metadataSinks := by
        simp [updateCols, scalar]
      rw [← proposed, admits.proposed_apply format defaults idVal embedVal
        embedding complete free scalar, shows.columns column free scalar]
      simp only [Record.assign, Option.getD_some]
      -- `DO UPDATE` sets exactly the columns the record is assigned.
      cases found : (tm.assignments embedVal metaVals).lookup column with
      | none =>
          have kept := (lookup_assignments_eq_none_iff complete).mp found
          rw [if_neg (mt assigned.mp kept), Option.none_or]
      | some value =>
          have set : column ∈ tm.embedSink :: tm.metadataSinks := by
            by_contra kept
            rw [(lookup_assignments_eq_none_iff complete).mpr kept] at found
            cases found
          rw [if_pos (assigned.mpr set)]
          rfl

/-- One write on the rows does what it does on the records. -/
theorem Represents.write
    {mappings : List TableMapping}
    (tables : mappings.Pairwise fun tm other =>
      tm.sourceTable ≠ other.sourceTable)
    (admits : ∀ tm ∈ mappings, layout.Admits tm)
    {rows : Rows}
    {records : Records φ}
    (represents : layout.Represents format defaults rows records)
    {action : BatchEvent}
    (mapped : action.tm ∈ mappings)
    (whole : WholeKey (action.tm.rowKey action.idVal))
    (complete : action.kind = .upsert →
      action.metaVals.length = action.tm.metadataSinks.length)
    (embed : String → List φ) :
    layout.Represents format defaults
      (execute format layout.sinkColumn mappings defaults rows
        (action.write embed))
      (records.perform embed action) := by
  have admitted := admits action.tm mapped
  intro key has
  have shown := represents key has
  have meets : ∀ row ∈ Sql.select (layout.conditions key) rows,
      Sql.Meets (layout.conditions key) row :=
    fun row member => (Multiset.mem_filter.mp member).2
  rw [Records.perform_apply]
  unfold execute BatchEvent.act
  rw [statement?_write tables mapped]
  cases kind : action.kind with
  | upsert =>
      simp only [admitted.select_upsert whole has]
      by_cases same : action.tm.rowKey action.idVal = key
      · subst same
        rw [if_pos rfl, if_pos rfl]
        exact admitted.showsAt_upsert (complete kind) whole _ _ meets shown
      · rw [if_neg same, if_neg same]
        exact shown
  | delete =>
      simp only [buildDeleteSql, Sql.select_delete]
      rw [Sql.execute_delete_of_iff fun row member =>
        admitted.meets_key_iff whole has (meets row member)]
      exact shown.discard _
  | truncate =>
      simp only [buildTruncateSql, Sql.select_delete]
      rw [Sql.execute_delete_of_iff fun row member =>
        admitted.meets_scope_iff whole has (meets row member)]
      exact shown.discard _

/-- Writes one after the other. -/
theorem Represents.performAll
    {mappings : List TableMapping}
    (tables : mappings.Pairwise fun tm other =>
      tm.sourceTable ≠ other.sourceTable)
    (admits : ∀ tm ∈ mappings, layout.Admits tm)
    (embed : String → List φ)
    {batch : List BatchEvent}
    (planned : ∀ action ∈ batch, action.tm ∈ mappings ∧
      (action.kind = .upsert →
        action.metaVals.length = action.tm.metadataSinks.length))
    (whole : ∀ action ∈ batch, WholeKey (action.tm.rowKey action.idVal))
    {rows : Rows}
    {records : Records φ}
    (represents : layout.Represents format defaults rows records) :
    layout.Represents format defaults
      ((batch.map (BatchEvent.write embed)).foldl
        (execute format layout.sinkColumn mappings defaults) rows)
      (records.performAll embed batch) := by
  induction batch generalizing rows records with
  | nil => exact represents
  | cons action batch inductionHypothesis =>
      rw [List.forall_mem_cons] at planned whole
      exact inductionHypothesis planned.2 whole.2
        (represents.write tables admits planned.1.1 whole.1 planned.1.2
          embed)

end Writes

end Layout

/-- A planned upsert has a value for each metadata column. -/
theorem Planned.complete
    {tm : TableMapping}
    {event : ChangeEvent}
    {action : BatchEvent}
    (planned : Planned tm event action)
    (upserts : action.kind = .upsert) :
    action.metaVals.length = tm.metadataSinks.length := by
  cases planned with
  | upsert op prepared =>
      obtain ⟨newRow, _, _, _, _, rfl⟩ :=
        prepareUpsert_eq_some_iff.mp prepared
      simp [TableMapping.metadataSources, TableMapping.metadataSinks]
  | delete => cases upserts
  | truncate => cases upserts

theorem complete_of_mem_plan
    {mappings : List TableMapping}
    {events : List ChangeEvent}
    {action : BatchEvent}
    (among : action ∈ plan mappings events) :
    action.tm ∈ mappings ∧
      (action.kind = .upsert →
        action.metaVals.length = action.tm.metadataSinks.length) := by
  obtain ⟨event, _, found⟩ := List.mem_filterMap.mp among
  obtain ⟨mapped, planned⟩ := planEvent_eq_some_iff.mp found
  exact ⟨List.mem_of_find?_eq_some mapped, planned.complete⟩

/-- The statements of the pgvector sink keep the records: after any batches
whose writes succeed, the rows show the records as they are then. -/
theorem represents_afterBatches
    {format : φ → String}
    {layout : Layout}
    {mappings : List TableMapping}
    (tables : mappings.Pairwise fun tm other =>
      tm.sourceTable ≠ other.sourceTable)
    (admits : ∀ tm ∈ mappings, layout.Admits tm)
    {embed : String → List φ}
    (filled : ∀ text, embed text ≠ [])
    {defaults : Sql.Row String String}
    {rows : Rows}
    {records : Records φ}
    (represents : layout.Represents format defaults rows records)
    {batches : List (Environment φ × List ChangeEvent)}
    (answered : ∀ batch ∈ batches, Answers embed batch.1 ∧
      (Sink.callBatch batch.1 mappings batch.2).returned = true)
    (whole : ∀ action ∈ plan mappings (batches.map Prod.snd).flatten,
      WholeKey (action.tm.rowKey action.idVal)) :
    layout.Represents format defaults
      (PgEmbeddingSink.afterBatches format layout.sinkColumn mappings
        defaults rows batches)
      (records.afterBatches mappings batches) := by
  rw [afterBatches_eq_foldl filled answered,
    afterBatches_eq filled mappings batches answered]
  exact represents.performAll tables admits embed
    (fun _ planned => complete_of_mem_plan planned) whole

-- The two mappings of one table are of one layout.
example : ∀ tm ∈ [articles, comments],
    Layout.Admits ⟨"source_id", some "kind", "embedding"⟩ tm := by
  simp only [List.forall_mem_cons]
  exact ⟨⟨by decide, by decide, by decide⟩,
    ⟨by decide, by decide, by decide⟩, by simp⟩

end Sink
end Walkrie
