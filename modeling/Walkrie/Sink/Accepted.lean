import Walkrie.Config.PgSink
import Walkrie.Sink.SqlText

/-!
# What validation says about the statements

`PgSinkConfiguration::validate` looks at the source columns of a mapping and
not at the names of its sink columns, nor at other mappings of the same source
table.  So the statement of an accepted mapping can name a column twice or not
at all, and the statement that is kept for a table can be that of a mapping
which no event is planned by.
-/

namespace Walkrie

open Config PgSqlBuilder PgEmbeddingSink

/-! ## The columns of an upsert -/

/-- An upsert that names its columns properly: none is empty or repeated, the
last parameter and no other is cast to a vector, and what identifies the row
is not set. -/
def WellFormedUpsert : Sql.Prepared → Prop
  | .insert _ columns values target updates =>
      (∀ column ∈ columns, column ≠ "") ∧
        columns.Nodup ∧
        values.map Sql.Placeholder.cast =
          List.replicate (columns.length - 1) none ++ [some "vector"] ∧
        target.Disjoint updates ∧
        updates.Nodup
  | .delete _ _ _ => False

section Columns

variable {sinkTable sinkColumn : String}
variable {tm : TableMapping}

/-- Columns that are not repeated name the vector column only at the end. -/
theorem map_castOf_sinkCols
    (distinct : (sinkCols sinkColumn tm).Nodup) :
    (sinkCols sinkColumn tm).map (castOf sinkColumn) =
      List.replicate ((sinkCols sinkColumn tm).length - 1) none ++
        [some "vector"] := by
  have last : sinkCols sinkColumn tm =
      (keyColumns tm ++ tm.embedSink :: tm.metadataSinks) ++ [sinkColumn] := by
    simp [sinkCols, updateCols]
  rw [last] at distinct ⊢
  generalize keyColumns tm ++ tm.embedSink :: tm.metadataSinks = front at *
  have plain : ∀ column ∈ front, castOf sinkColumn column = none := by
    intro column member
    refine if_neg ?_
    rintro rfl
    exact List.disjoint_of_nodup_append distinct member (by simp)
  rw [List.map_append, List.map_congr_left plain, List.map_const',
    List.length_append, List.length_singleton, Nat.add_sub_cancel]
  simp [castOf]

theorem wellFormedUpsert_iff
    (vector : sinkColumn ≠ "")
    (label : tm.hasDiscriminator = true → tm.discriminatorSink ≠ "") :
    WellFormedUpsert
        (prepare sinkTable sinkColumn (buildUpsertSql sinkColumn tm)) ↔
      tm.idSink ≠ "" ∧ tm.embedSink ≠ "" ∧
        (∀ sink ∈ tm.metadataSinks, sink ≠ "") ∧
        (sinkCols sinkColumn tm).Nodup := by
  have named : (∀ column ∈ sinkCols sinkColumn tm, column ≠ "") ↔
      tm.idSink ≠ "" ∧ tm.embedSink ≠ "" ∧
        ∀ sink ∈ tm.metadataSinks, sink ≠ "" := by
    have scope : ∀ column ∈ scopeColumns tm, column ≠ "" := by
      unfold scopeColumns
      split <;> rename_i labelled
      · simpa using label labelled
      · simp
    simp only [sinkCols, keyColumns, updateCols, List.forall_mem_append,
      List.forall_mem_cons, List.not_mem_nil, false_imp_iff, implies_true,
      and_true]
    tauto
  constructor
  · rintro ⟨columns, distinct, _⟩
    obtain ⟨id, embed, metadata⟩ := named.mp columns
    exact ⟨id, embed, metadata, distinct⟩
  · rintro ⟨id, embed, metadata, distinct⟩
    refine ⟨named.mpr ⟨id, embed, metadata⟩, distinct, ?_,
      List.disjoint_of_nodup_append distinct, distinct.of_append_right⟩
    rw [Sql.cast_numbered, map_castOf_sinkCols distinct]

end Columns

/-- The upsert of a mapping of an accepted `[[sink]]` table is well-formed
exactly when its sink columns have names, no two of them the same. -/
theorem accepted_upsert_wellFormed_iff
    (files : FileSystem)
    (entries : List (String × Toml))
    (accepted :
      (PgSinkConfiguration.loadFromConfig {} entries).validate files = [])
    (tm : TableMapping)
    (member :
      tm ∈ (PgSinkConfiguration.loadFromConfig {} entries).tableMappings) :
    let config := PgSinkConfiguration.loadFromConfig {} entries
    WellFormedUpsert (prepare config.table config.embeddingColumn
        (buildUpsertSql config.embeddingColumn tm)) ↔
      tm.idSink ≠ "" ∧ tm.embedSink ≠ "" ∧
        (∀ sink ∈ tm.metadataSinks, sink ≠ "") ∧
        (sinkCols config.embeddingColumn tm).Nodup := by
  have valid := PgSinkConfiguration.validate_eq_nil_iff.mp accepted
  exact wellFormedUpsert_iff valid.embeddingColumn
    (Sink.discriminatorSink_of_mem_loadMappings member)

/-- A `[[sink]]` table with one mapping, whose columns are given by source
column, sink column and role. -/
def articleSink (columns : List (String × String × String)) :
    List (String × Toml) :=
  [("dbname", .scalar (.text "vectors")), ("user", .scalar (.text "walkrie")),
    ("table", .scalar (.text "documents")),
    ("embed_column", .scalar (.text "embedding")),
    ("table_mapping", .array [.table
      [("source_table", .scalar (.text "articles")),
        ("columns", .array (columns.map fun column => .table
          [("source_column", .scalar (.text column.1)),
            ("sink_column", .scalar (.text column.2.1)),
            ("role", .scalar (.text column.2.2))]))]])]

/-- The mapping that is loaded from it. -/
def articleMapping (columns : List (String × String × String)) :
    TableMapping :=
  TableMapping.resolveColumns
    { sourceTable := "articles"
      columns := columns.map fun column =>
        { sourceColumn := column.1
          sinkColumn := column.2.1
          role := column.2.2 } }

/-- With three columns of their own the upsert is well-formed. -/
theorem accepted_upsert_wellFormed_article :
    WellFormedUpsert (prepare "documents" "embedding"
      (buildUpsertSql "embedding" (articleMapping
        [("id", "id", "id"), ("body", "content", "embed"),
          ("lang", "lang", "metadata")]))) :=
  (accepted_upsert_wellFormed_iff noFiles
    (articleSink [("id", "id", "id"), ("body", "content", "embed"),
      ("lang", "lang", "metadata")]) rfl
    (articleMapping [("id", "id", "id"), ("body", "content", "embed"),
      ("lang", "lang", "metadata")]) (by decide)).mpr (by decide)

/-- A column that two roles share, or that has no name, is accepted. -/
theorem accepted_upsert_malformed :
    ((PgSinkConfiguration.loadFromConfig {}
          (articleSink [("id", "content", "id"),
            ("body", "content", "embed")])).validate noFiles = [] ∧
        ¬WellFormedUpsert (prepare "documents" "embedding"
          (buildUpsertSql "embedding" (articleMapping
            [("id", "content", "id"), ("body", "content", "embed")])))) ∧
      (PgSinkConfiguration.loadFromConfig {}
          (articleSink [("id", "", "id"),
            ("body", "content", "embed")])).validate noFiles = [] ∧
        ¬WellFormedUpsert (prepare "documents" "embedding"
          (buildUpsertSql "embedding" (articleMapping
            [("id", "", "id"), ("body", "content", "embed")]))) := by
  refine ⟨⟨rfl, ?_⟩, rfl, ?_⟩
  · rw [wellFormedUpsert_iff (by decide) (by decide)]
    decide
  · rw [wellFormedUpsert_iff (by decide) (by decide)]
    decide

/-! ## The statements that are kept for a table -/

/-- The mapping `call_batch` selects for a table. -/
def selectedMapping (mappings : List TableMapping) (table : String) :
    Option TableMapping :=
  mappings.find? fun tm => tm.sourceTable = table

/-- The mapping whose statements `init()` keeps for a table. -/
def storedMapping (mappings : List TableMapping) (table : String) :
    Option TableMapping :=
  mappings.reverse.find? fun tm => tm.sourceTable = table

/-- The three statements of a mapping. -/
def builders (sinkColumn : String) :
    List (TableMapping → Sql.Statement String) :=
  [buildUpsertSql sinkColumn, buildDeleteSql, buildTruncateSql]

theorem lookup_map_sourceTable
    {σ : Type}
    (mappings : List TableMapping)
    (build : TableMapping → σ)
    (table : String) :
    (mappings.map fun tm => (tm.sourceTable, build tm)).lookup table =
      (selectedMapping mappings table).map build := by
  induction mappings with
  | nil => rfl
  | cons tm mappings inductionHypothesis =>
      rw [List.map_cons, List.lookup_cons, inductionHypothesis,
        selectedMapping, selectedMapping, List.find?_cons]
      by_cases same : tm.sourceTable = table
      · simp [same]
      · simp [same, beq_eq_false_iff_ne.mpr (Ne.symm same)]

/-- A table keeps the statements of its last mapping. -/
theorem lookup_sqlList_storedMapping
    (mappings : List TableMapping)
    (build : TableMapping → Sql.Statement String)
    (table : String) :
    (sqlList build mappings).lookup table =
      (storedMapping mappings table).map build := by
  rw [lookup_sqlList_eq, Assoc.last, ← List.map_reverse,
    lookup_map_sourceTable]
  rfl

theorem sourceTable_of_selectedMapping
    {mappings : List TableMapping}
    {table : String}
    {tm : TableMapping}
    (selected : selectedMapping mappings table = some tm) :
    tm ∈ mappings ∧ tm.sourceTable = table := by
  unfold selectedMapping at selected
  have named := List.find?_some selected
  exact ⟨List.mem_of_find?_eq_some selected, of_decide_eq_true named⟩

theorem storedMapping_isSome
    {mappings : List TableMapping}
    {table : String}
    {tm : TableMapping}
    (selected : selectedMapping mappings table = some tm) :
    ∃ last, storedMapping mappings table = some last := by
  obtain ⟨member, named⟩ := sourceTable_of_selectedMapping selected
  rw [← Option.isSome_iff_exists, storedMapping, List.find?_isSome]
  exact ⟨tm, List.mem_reverse.mpr member, decide_eq_true named⟩

/-- Every event finds the statements of the mapping that it is planned by
exactly when the first and the last mapping of each source table have the same
statements. -/
theorem stored_statements_agree_iff
    (sinkTable sinkColumn : String)
    (mappings : List TableMapping) :
    (∀ (event : ChangeEvent) (tm : TableMapping),
      selectedMapping mappings event.tableName = some tm →
      ∀ build ∈ builders sinkColumn,
        ((sqlList build mappings).lookup tm.sourceTable).map
            (text sinkTable sinkColumn) =
          some (text sinkTable sinkColumn (build tm))) ↔
    ∀ (table : String) (first last : TableMapping),
      selectedMapping mappings table = some first →
      storedMapping mappings table = some last →
      ∀ build ∈ builders sinkColumn,
        text sinkTable sinkColumn (build last) =
          text sinkTable sinkColumn (build first) := by
  simp only [lookup_sqlList_storedMapping, Option.map_map]
  constructor
  · intro agree table first last selected stored build member
    have found := agree { op := .truncate, tableName := table } first selected
      build member
    rw [(sourceTable_of_selectedMapping selected).2, stored] at found
    exact Option.some.inj found
  · intro same event tm selected build member
    obtain ⟨last, stored⟩ := storedMapping_isSome selected
    rw [(sourceTable_of_selectedMapping selected).2, stored, Option.map_some,
      Function.comp_apply, same _ tm last selected stored build member]

/-- Two mappings of one table, of which the second has a discriminator. -/
def articleTwice : PgSinkConfiguration where
  dbname := "vectors"
  user := "walkrie"
  table := "documents"
  embeddingColumn := "embedding"
  tableMappings :=
    let tm := articleMapping [("id", "id", "id"), ("body", "content", "embed")]
    [tm,
      { tm with
        hasDiscriminator := true
        discriminatorSink := "kind"
        discriminatorLabel := "article" }]

/-- An event of the table is planned by the first mapping, whose parameters
are then bound to the upsert of the second. -/
theorem stored_statement_of_other_mapping :
    articleTwice.validate noFiles = [] ∧
    selectedMapping articleTwice.tableMappings "articles" =
      some (articleMapping
        [("id", "id", "id"), ("body", "content", "embed")]) ∧
    ((sqlList (buildUpsertSql "embedding")
        articleTwice.tableMappings).lookup "articles").map
          (text "documents" "embedding") ≠
      some (text "documents" "embedding" (buildUpsertSql "embedding"
        (articleMapping [("id", "id", "id"),
          ("body", "content", "embed")]))) := by
  decide +kernel

end Walkrie
