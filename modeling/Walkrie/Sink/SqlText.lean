import Walkrie.Library.Prepared
import Walkrie.Sink.SqlBuilder

/-!
# The texts of the statements

`PgSqlBuilder` numbers the parameters of a statement in the order of its
columns, and casts the one for the vector column.  The sink collects the
values for them on its own: the id, the label, the text, the metadata and the
vector.  Columns, placeholders and values line up for every mapping, so a
write changes the row it is about and no other.  What lines up are the values
up to their first NUL byte, which is all of them that is bound.
-/

namespace Walkrie

namespace PgSqlBuilder

/-- The cast in `val_list` of `build_upsert_sql`. -/
def castOf (sinkColumn column : String) : Option String :=
  if column = sinkColumn then some "vector" else none

/-- A statement with its parameters numbered. -/
def prepare (sinkTable sinkColumn : String) :
    Sql.Statement String → Sql.Prepared
  | .upsert columns target updates =>
      .insert sinkTable columns (Sql.numbered (castOf sinkColumn) columns)
        target updates
  | .delete columns =>
      .delete sinkTable columns (Sql.numbered (fun _ => none) columns)

/-- The text of a statement. -/
def text (sinkTable sinkColumn : String) (statement : Sql.Statement String) :
    String :=
  (prepare sinkTable sinkColumn statement).render

section Prepare

variable {sinkTable sinkColumn : String}
variable {statement : Sql.Statement String}

@[simp]
theorem statement_prepare :
    (prepare sinkTable sinkColumn statement).statement = statement := by
  cases statement <;> rfl

/-- The parameters are numbered in the order of the columns. -/
theorem exists_placeholders_prepare :
    ∃ cast, (prepare sinkTable sinkColumn statement).placeholders =
      Sql.numbered cast (prepare sinkTable sinkColumn statement).columns := by
  cases statement with
  | upsert columns target updates => exact ⟨castOf sinkColumn, rfl⟩
  | delete columns => exact ⟨fun _ => none, rfl⟩

end Prepare

/-- The mapping of the repository's own tests. -/
def basicMapping (discriminator : Bool) : TableMapping where
  sourceTable := "test_table"
  columns :=
    [{ sourceColumn := "category", sinkColumn := "kind", role := "metadata" }]
  idSource := "id"
  idSink := "item_id"
  embedSource := "body"
  embedSink := "item_body"
  hasDiscriminator := discriminator
  discriminatorSink := "category"
  discriminatorLabel := "test_table"

example :
    text "items" "vec" (buildUpsertSql "vec" (basicMapping true)) =
      "INSERT INTO items (item_id, category, item_body, kind, vec) " ++
        "VALUES ($1, $2, $3, $4, $5::vector) " ++
        "ON CONFLICT (item_id, category) DO UPDATE SET " ++
        "item_body = EXCLUDED.item_body, kind = EXCLUDED.kind, " ++
        "vec = EXCLUDED.vec" := by
  decide +kernel

example :
    text "items" "vec" (buildDeleteSql (basicMapping true)) =
      "DELETE FROM items WHERE item_id = $1 AND category = $2" := by
  decide

example :
    text "items" "vec" (buildTruncateSql (basicMapping false)) =
      "DELETE FROM items" := by
  decide

end PgSqlBuilder

namespace PgEmbeddingSink

open PgSqlBuilder Sink

variable {φ : Type}

/-! ## Columns and parameters -/

/-- The label in its column, if there is one. -/
def scopeValues (tm : TableMapping) : List (String × String) :=
  if tm.hasDiscriminator then
    [(tm.discriminatorSink, tm.discriminatorLabel)]
  else []

/-- The key of a row. -/
def keyValues (tm : TableMapping) (idVal : String) :
    List (String × String) :=
  (tm.idSink, idVal) :: scopeValues tm

/-- What a row of the source becomes, column by column. -/
def rowValues (format : φ → String) (sinkColumn : String)
    (tm : TableMapping) (row : DecodedRow) (embedding : List φ) :
    List (String × String) :=
  keyValues tm (row.getColumn tm.idSource) ++
    (tm.embedSink, row.getColumn tm.embedSource) ::
      ((tm.columns.filter fun column => column.role = "metadata").map
        (fun column =>
          (column.sinkColumn, row.getColumn column.sourceColumn)) ++
        [(sinkColumn, vecLiteral format embedding)])

/-- The values as they are bound. -/
def bound (values : List (String × String)) : List (String × String) :=
  values.map (Prod.map id cStr)

/-- The placeholders are `$1` to `$n` in the order of the columns, there are
`n` parameters, and each is the value for its column. -/
structure LinesUp (prepared : Sql.Prepared) (params : List String)
    (values : List (String × String)) : Prop where
  numbers : prepared.placeholders.map Sql.Placeholder.number =
    List.range' 1 prepared.columns.length
  count : params.length = prepared.columns.length
  pairs : prepared.columns.zip params = values

variable {tm : TableMapping}
variable {format : φ → String}

theorem zip_scopeColumns :
    (scopeColumns tm).zip (scopeParams tm) = bound (scopeValues tm) := by
  unfold scopeColumns scopeParams scopeValues
  cases tm.hasDiscriminator <;> rfl

theorem zip_keyColumns
    (idVal : String) :
    (keyColumns tm).zip (keyParams tm idVal) =
      bound (keyValues tm idVal) := by
  rw [keyColumns, keyParams, List.zip_cons_cons, zip_scopeColumns, keyValues]
  rfl

theorem length_metadata (row : DecodedRow) :
    (tm.metadataSources.map row.getColumn).length =
      tm.metadataSinks.length := by
  simp [TableMapping.metadataSources, TableMapping.metadataSinks]

/-- The columns of the statement and the parameters of the sink are collected
apart, but in the same order. -/
theorem zip_sinkCols_rowValues
    (sinkColumn : String)
    (row : DecodedRow)
    (embedding : List φ) :
    (sinkCols sinkColumn tm).zip
        (upsertParams format tm (row.getColumn tm.idSource)
          (row.getColumn tm.embedSource)
          (tm.metadataSources.map row.getColumn) embedding) =
      bound (rowValues format sinkColumn tm row embedding) := by
  have pairs : tm.metadataSinks.zip (tm.metadataSources.map row.getColumn) =
      (tm.columns.filter fun column => column.role = "metadata").map
        fun column =>
          (column.sinkColumn, row.getColumn column.sourceColumn) := by
    rw [TableMapping.metadataSources, TableMapping.metadataSinks,
      List.map_map, List.zip_map', Function.comp_def]
  rw [zip_sinkCols (length_metadata row), zip_keyColumns, rowValues,
    TableMapping.assignments, pairs]
  simp only [bound, List.map_append, List.map_cons, List.map_nil]
  rfl

theorem linesUp_prepare
    {sinkTable sinkColumn : String}
    {statement : Sql.Statement String}
    {params : List String}
    {values : List (String × String)}
    (count : params.length =
      (prepare sinkTable sinkColumn statement).columns.length)
    (pairs : (prepare sinkTable sinkColumn statement).columns.zip params =
      values) :
    LinesUp (prepare sinkTable sinkColumn statement) params values := by
  obtain ⟨cast, placeholders⟩ := exists_placeholders_prepare
  refine ⟨?_, count, pairs⟩
  rw [placeholders, Sql.number_numbered]

theorem length_upsertParams
    (sinkColumn idVal embedVal : String)
    {metaVals : List String}
    (complete : metaVals.length = tm.metadataSinks.length)
    (embedding : List φ) :
    (upsertParams format tm idVal embedVal metaVals embedding).length =
      (sinkCols sinkColumn tm).length := by
  have key := length_keyParams tm idVal
  simp only [upsertParams, sinkCols, updateCols, List.length_append,
    List.length_cons, List.length_map, List.length_nil, complete]
  omega

theorem linesUp_upsert
    (sinkTable sinkColumn : String)
    (row : DecodedRow)
    (embedding : List φ) :
    LinesUp (prepare sinkTable sinkColumn (buildUpsertSql sinkColumn tm))
      (upsertParams format tm (row.getColumn tm.idSource)
        (row.getColumn tm.embedSource)
        (tm.metadataSources.map row.getColumn) embedding)
      (bound (rowValues format sinkColumn tm row embedding)) :=
  linesUp_prepare
    (length_upsertParams sinkColumn _ _ (length_metadata row) embedding)
    (zip_sinkCols_rowValues sinkColumn row embedding)

theorem linesUp_delete
    (sinkTable sinkColumn idVal : String) :
    LinesUp (prepare sinkTable sinkColumn (buildDeleteSql tm))
      (keyParams tm idVal) (bound (keyValues tm idVal)) :=
  linesUp_prepare (length_keyParams tm idVal).symm (zip_keyColumns idVal)

theorem linesUp_truncate
    (sinkTable sinkColumn : String) :
    LinesUp (prepare sinkTable sinkColumn (buildTruncateSql tm))
      (scopeParams tm) (bound (scopeValues tm)) :=
  linesUp_prepare (Nat.succ.inj (length_keyParams tm "").symm)
    zip_scopeColumns

/-! ## What a write does -/

/-- There is one row with the key of the values, which has the values and
otherwise what was there before, and the rows with other keys are the same. -/
structure Upserted (defaults : Sql.Row String String)
    (key values : List (String × String)) (before after : Rows) :
    Prop where
  row : ∃ row, Sql.select key after = {row} ∧ Sql.Meets values row ∧
    ∀ column ∉ values.map Prod.fst,
      (∃ old ∈ Sql.select key before, row column = old column) ∨
        Sql.select key before = 0 ∧ row column = defaults column
  rest : Sql.reject key after = Sql.reject key before

theorem upserted_execute
    {sinkColumn : String}
    (distinct : (sinkCols sinkColumn tm).Nodup)
    (idVal embedVal : String)
    {metaVals : List String}
    (complete : metaVals.length = tm.metadataSinks.length)
    (embedding : List φ)
    (defaults : Sql.Row String String)
    {rows : Rows}
    (keyed : Sql.Keyed (keyColumns tm) rows) :
    Upserted defaults (bound (keyValues tm idVal))
      ((sinkCols sinkColumn tm).zip
        (upsertParams format tm idVal embedVal metaVals embedding)) rows
      (Sql.execute defaults rows (buildUpsertSql sinkColumn tm)
        (upsertParams format tm idVal embedVal metaVals embedding)) := by
  have length : (upsertParams format tm idVal embedVal metaVals
      embedding).length = (sinkCols sinkColumn tm).length :=
    length_upsertParams sinkColumn idVal embedVal complete embedding
  have meets := Sql.meets_excluded distinct length defaults
  have proposes : Sql.Meets (bound (keyValues tm idVal))
      (Sql.excluded defaults (sinkCols sinkColumn tm)
        (upsertParams format tm idVal embedVal metaVals embedding)) := by
    rw [zip_sinkCols complete, zip_keyColumns] at meets
    exact fun condition member =>
      meets condition (List.mem_append_left _ member)
  have names : (bound (keyValues tm idVal)).map Prod.fst =
      keyColumns tm := by
    rw [← zip_keyColumns, List.map_fst_zip (length_keyParams tm idVal).le]
  have kept : ∀ column ∈ keyColumns tm, column ∉ updateCols sinkColumn tm :=
    fun _ member => List.disjoint_of_nodup_append distinct member
  have single : (Sql.select (bound (keyValues tm idVal)) rows).card ≤ 1 := by
    rw [← zip_keyColumns]
    exact keyed _ (length_keyParams tm idVal).symm
  obtain ⟨row, selected, assigned, others⟩ :=
    Sql.select_upsert_of_card_le_one names kept proposes single
  refine ⟨⟨row, selected, ?_, ?_⟩, Sql.reject_upsert names kept proposes⟩
  · intro pair member
    rw [assigned pair.1 (List.of_mem_zip member).1]
    exact meets pair member
  · intro column absent
    rw [List.map_fst_zip length.ge] at absent
    rcases others column absent with old | ⟨vacant, value⟩
    · exact .inl old
    · exact .inr ⟨vacant, value.trans
        (Sql.excluded_of_notMem absent defaults _)⟩

/-- A statement and parameters that line up are executed in the order of the
columns. -/
theorem LinesUp.run_eq
    {sinkTable sinkColumn : String}
    {statement : Sql.Statement String}
    {params : List String}
    {values : List (String × String)}
    (linesUp : LinesUp (prepare sinkTable sinkColumn statement) params values)
    (defaults : Sql.Row String String)
    (rows : Rows) :
    (prepare sinkTable sinkColumn statement).run defaults rows params =
      some (Sql.execute defaults rows statement params) := by
  obtain ⟨cast, placeholders⟩ := exists_placeholders_prepare
  rw [Sql.run_of_numbered placeholders linesUp.count, statement_prepare]

/-- Statements and parameters line up, and a write changes the rows with its
key or in its scope and no others.  Values are bound up to their first NUL
byte. -/
theorem statements_line_up
    (format : φ → String)
    (sinkTable sinkColumn : String)
    (tm : TableMapping)
    (distinct : (sinkCols sinkColumn tm).Nodup)
    (defaults : Sql.Row String String)
    (rows : Rows)
    (keyed : Sql.Keyed (keyColumns tm) rows) :
    (∀ (event : ChangeEvent) (action : BatchEvent) (embedding : List φ),
      prepareUpsert tm event = some action →
      ∃ row after, event.newRow = some row ∧
        LinesUp (prepare sinkTable sinkColumn (buildUpsertSql sinkColumn tm))
          (upsertParams format tm action.idVal action.embedVal
            action.metaVals embedding)
          (bound (rowValues format sinkColumn tm row embedding)) ∧
        (prepare sinkTable sinkColumn (buildUpsertSql sinkColumn tm)).run
          defaults rows
          (upsertParams format tm action.idVal action.embedVal
            action.metaVals embedding) = some after ∧
        Upserted defaults
          (bound (keyValues tm (row.getColumn tm.idSource)))
          (bound (rowValues format sinkColumn tm row embedding)) rows
          after) ∧
    (∀ idVal : String,
      LinesUp (prepare sinkTable sinkColumn (buildDeleteSql tm))
        (keyParams tm idVal) (bound (keyValues tm idVal)) ∧
      (prepare sinkTable sinkColumn (buildDeleteSql tm)).run defaults rows
        (keyParams tm idVal) =
          some (Sql.reject (bound (keyValues tm idVal)) rows)) ∧
    LinesUp (prepare sinkTable sinkColumn (buildTruncateSql tm))
      (scopeParams tm) (bound (scopeValues tm)) ∧
    (prepare sinkTable sinkColumn (buildTruncateSql tm)).run defaults rows
      (scopeParams tm) =
        some (Sql.reject (bound (scopeValues tm)) rows) := by
  refine ⟨fun event action embedding accepted => ?_, fun idVal => ?_, ?_⟩
  · obtain ⟨row, shown, _, _, _, rfl⟩ :=
      prepareUpsert_eq_some_iff.mp accepted
    have linesUp : LinesUp _ _
        (bound (rowValues format sinkColumn tm row embedding)) :=
      linesUp_upsert sinkTable sinkColumn row embedding
    refine ⟨row, _, shown, linesUp, linesUp.run_eq defaults rows, ?_⟩
    rw [← zip_sinkCols_rowValues sinkColumn row embedding]
    exact upserted_execute distinct _ _ (length_metadata row) embedding
      defaults keyed
  · have linesUp : LinesUp _ _ (bound (keyValues tm idVal)) :=
      linesUp_delete sinkTable sinkColumn idVal
    refine ⟨linesUp, ?_⟩
    rw [linesUp.run_eq, ← zip_keyColumns]
    rfl
  · have linesUp : LinesUp _ _ (bound (scopeValues tm)) :=
      linesUp_truncate sinkTable sinkColumn
    refine ⟨linesUp, ?_⟩
    rw [linesUp.run_eq, ← zip_scopeColumns]
    rfl

/-- The tuple of an inserted item. -/
def itemRow : DecodedRow where
  kind := .insert
  columns :=
    [{ name := "id", textValue := "7" },
      { name := "body", textValue := "a text" },
      { name := "category", textValue := "news" }]

/-- The insert of the item. -/
def itemInsert : ChangeEvent :=
  { op := .insert, tableName := "test_table", newRow := some itemRow }

/-- An item that is inserted into an empty table. -/
theorem statements_line_up_item :
    ∃ after : Rows,
      (prepare "items" "vec" (buildUpsertSql "vec" (basicMapping true))).run
        (fun _ => none) 0
        ["7", "test_table", "a text", "news", "[1,2]"] = some after ∧
      Upserted (fun _ => none)
        [("item_id", "7"), ("category", "test_table")]
        [("item_id", "7"), ("category", "test_table"),
          ("item_body", "a text"), ("kind", "news"), ("vec", "[1,2]")] 0
        after := by
  have keyed : Sql.Keyed (keyColumns (basicMapping true)) (0 : Rows) :=
    fun _ _ => by simp [Sql.select]
  obtain ⟨row, after, shown, linesUp, run, upserted⟩ :=
    (statements_line_up (toString : Nat → String) "items" "vec"
      (basicMapping true) (by decide) (fun _ => none) 0 keyed).1 itemInsert
      { tm := basicMapping true, idVal := "7", embedVal := "a text",
        metaVals := ["news"] } [1, 2] (by decide)
  obtain rfl := Option.some.inj shown
  exact ⟨after, run, upserted⟩

/-- The mapping with a NUL byte in its label. -/
def splitMapping : TableMapping :=
  { basicMapping true with discriminatorLabel := "test\x00table" }

/-- What is bound for its label is not the label. -/
theorem not_linesUp_splitMapping :
    (sinkCols "vec" splitMapping).Nodup ∧
      ∃ action, prepareUpsert splitMapping itemInsert = some action ∧
        ∀ embedding : List Nat,
          ¬LinesUp
            (prepare "items" "vec" (buildUpsertSql "vec" splitMapping))
            (upsertParams toString splitMapping action.idVal action.embedVal
              action.metaVals embedding)
            (rowValues toString "vec" splitMapping itemRow embedding) := by
  refine ⟨by decide, _, rfl, fun embedding linesUp => ?_⟩
  have second : some ("category", "test") =
      some ("category", "test\x00table") :=
    congrArg (·[1]?) linesUp.pairs
  exact absurd second (by decide)

end PgEmbeddingSink
end Walkrie
