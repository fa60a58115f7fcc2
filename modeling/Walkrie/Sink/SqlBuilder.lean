import Walkrie.Library.Sql
import Walkrie.Library.Table
import Walkrie.Sink.Batching

/-!
# The statements of the pgvector sink

`PgSqlBuilder` builds three statements for a mapping when the sink starts.  The
sink keeps them by source table, and a write looks its statement up and passes
the parameters in the order in which the statement numbers them.  All of them
are C strings without a length, the vector as well, so the server gets each
value up to its first NUL byte.
-/

namespace Walkrie

/-- The rows of the sink table, with the texts of all their columns. -/
abbrev Rows := Multiset (Sql.Row String String)

/-- What the receiver of `c_str()` sees of a string, if it is not told the
length. -/
def cStr (text : String) : String :=
  String.ofList (text.toList.takeWhile (· ≠ '\x00'))

theorem cStr_of_notMem
    {text : String}
    (whole : '\x00' ∉ text.toList) :
    cStr text = text := by
  rw [cStr, List.takeWhile_eq_self_iff.mpr, String.ofList_toList]
  intro c member
  rw [decide_eq_true_iff]
  rintro rfl
  exact whole member

namespace PgSqlBuilder

/-- The discriminator column, if there is one. -/
def scopeColumns (tm : TableMapping) : List String :=
  if tm.hasDiscriminator then [tm.discriminatorSink] else []

/-- The conflict target of an upsert and the columns of a delete. -/
def keyColumns (tm : TableMapping) : List String :=
  tm.idSink :: scopeColumns tm

/-- `update_cols` of `build_upsert_sql`: text, metadata and vector. -/
def updateCols (sinkColumn : String) (tm : TableMapping) : List String :=
  tm.embedSink :: (tm.metadataSinks ++ [sinkColumn])

/-- `sink_cols` of `build_upsert_sql`. -/
def sinkCols (sinkColumn : String) (tm : TableMapping) : List String :=
  keyColumns tm ++ updateCols sinkColumn tm

/-- `build_upsert_sql`. -/
def buildUpsertSql (sinkColumn : String) (tm : TableMapping) :
    Sql.Statement String :=
  .upsert (sinkCols sinkColumn tm) (keyColumns tm) (updateCols sinkColumn tm)

/-- `build_delete_sql`. -/
def buildDeleteSql (tm : TableMapping) : Sql.Statement String :=
  .delete (keyColumns tm)

/-- `build_truncate_sql`. -/
def buildTruncateSql (tm : TableMapping) : Sql.Statement String :=
  .delete (scopeColumns tm)

end PgSqlBuilder

namespace PgEmbeddingSink

open PgSqlBuilder Sink

variable {φ : Type}

/-- `upsert_sql_list_` and its like: the statement of each source table.  A
mapping replaces an earlier one of the same table. -/
def sqlList (build : TableMapping → Sql.Statement String)
    (mappings : List TableMapping) : Table String (Sql.Statement String) :=
  mappings.foldl
    (fun list tm => Table.upsert list tm.sourceTable (build tm)) ∅

/-- `vec_literal` of `upsert`.  The format is what `operator<<` makes of a
scalar, which has six significant digits. -/
def vecLiteral (format : φ → String) (embedding : List φ) : String :=
  "[" ++ ",".intercalate (embedding.map format) ++ "]"

/-- The parameter of the discriminator, if there is one. -/
def scopeParams (tm : TableMapping) : List String :=
  if tm.hasDiscriminator then [cStr tm.discriminatorLabel] else []

/-- The parameters of `remove`. -/
def keyParams (tm : TableMapping) (idVal : String) : List String :=
  cStr idVal :: scopeParams tm

/-- The parameters of `upsert`. -/
def upsertParams (format : φ → String) (tm : TableMapping)
    (idVal embedVal : String) (metaVals : List String) (embedding : List φ) :
    List String :=
  keyParams tm idVal ++
    cStr embedVal ::
      (metaVals.map cStr ++ [cStr (vecLiteral format embedding)])

/-- The statement a write executes, with its parameters. -/
def statement? (format : φ → String) (sinkColumn : String)
    (mappings : List TableMapping) :
    Write φ → Option (Sql.Statement String × List String)
  | .upsert tm idVal embedVal metaVals embedding =>
      ((sqlList (buildUpsertSql sinkColumn) mappings).lookup
        tm.sourceTable).map
          (·, upsertParams format tm idVal embedVal metaVals embedding)
  | .remove tm idVal =>
      ((sqlList buildDeleteSql mappings).lookup tm.sourceTable).map
        (·, keyParams tm idVal)
  | .truncate tm =>
      ((sqlList buildTruncateSql mappings).lookup tm.sourceTable).map
        (·, scopeParams tm)

/-- The sink table after a write that succeeds.  Planned writes always have a
statement. -/
def execute
    (format : φ → String)
    (sinkColumn : String)
    (mappings : List TableMapping)
    (defaults : Sql.Row String String)
    (rows : Rows)
    (write : Write φ) : Rows :=
  match statement? format sinkColumn mappings write with
  | none => rows
  | some (statement, params) => Sql.execute defaults rows statement params

/-- The sink table after a sequence of invocations whose writes succeed. -/
def afterBatches
    (format : φ → String)
    (sinkColumn : String)
    (mappings : List TableMapping)
    (defaults : Sql.Row String String)
    (rows : Rows)
    (batches : List (Environment φ × List ChangeEvent)) : Rows :=
  batches.foldl
    (fun rows batch =>
      (callBatch batch.1 mappings batch.2).calls.foldl
        (execute format sinkColumn mappings defaults) rows)
    rows

/-! ## The statement of a mapping -/

section Statements

variable {mappings : List TableMapping}
variable {tm : TableMapping}
variable {build : TableMapping → Sql.Statement String}
variable {format : φ → String}

/-- The last mapping of a table is the one whose statement is kept. -/
theorem lookup_sqlList_eq
    (table : String) :
    (sqlList build mappings).lookup table =
      Assoc.last (mappings.map fun tm => (tm.sourceTable, build tm)) table := by
  have assigned : sqlList build mappings =
      (mappings.map fun tm => (tm.sourceTable, build tm)).foldl
        (fun list pair => Table.upsert list pair.1 pair.2) ∅ := by
    rw [sqlList, List.foldl_map]
  rw [assigned, Table.lookup_foldl_upsert, AList.lookup_empty, Option.or_none]

/-- With one mapping for each source table, a mapping finds its own
statement. -/
theorem lookup_sqlList
    (tables : mappings.Pairwise fun tm other =>
      tm.sourceTable ≠ other.sourceTable)
    (member : tm ∈ mappings) :
    (sqlList build mappings).lookup tm.sourceTable = some (build tm) := by
  have distinct : ((mappings.map fun tm => (tm.sourceTable, build tm)).map
      Prod.fst).Nodup := by
    rw [List.map_map, List.nodup_iff_pairwise_ne, List.pairwise_map]
    exact tables
  rw [lookup_sqlList_eq, Assoc.last_eq_some_iff distinct]
  exact List.mem_map.mpr ⟨tm, member, rfl⟩

theorem length_keyParams (tm : TableMapping) (idVal : String) :
    (keyColumns tm).length = (keyParams tm idVal).length := by
  unfold keyColumns scopeColumns keyParams scopeParams
  cases tm.hasDiscriminator <;> rfl

/-- The columns of an upsert with their parameters: those of the key, those it
assigns and the vector. -/
theorem zip_sinkCols
    {sinkColumn : String}
    {metaVals : List String}
    (complete : metaVals.length = tm.metadataSinks.length)
    (idVal embedVal : String)
    (embedding : List φ) :
    (sinkCols sinkColumn tm).zip
        (upsertParams format tm idVal embedVal metaVals embedding) =
      (keyColumns tm).zip (keyParams tm idVal) ++
        ((tm.assignments embedVal metaVals).map (Prod.map id cStr) ++
          [(sinkColumn, cStr (vecLiteral format embedding))]) := by
  have lengths : (tm.embedSink :: tm.metadataSinks).length =
      (cStr embedVal :: metaVals.map cStr).length := by
    simp [complete]
  have pairs : (tm.embedSink :: tm.metadataSinks).zip
      (cStr embedVal :: metaVals.map cStr) =
        (tm.assignments embedVal metaVals).map (Prod.map id cStr) := by
    rw [TableMapping.assignments, List.zip_cons_cons, List.zip_map_right,
      List.map_cons]
    rfl
  rw [sinkCols, upsertParams, List.zip_append (length_keyParams tm idVal),
    updateCols, ← List.cons_append, ← List.cons_append,
    List.zip_append lengths, pairs]
  rfl

/-- The row an upsert proposes carries the label of its mapping. -/
theorem excluded_discriminatorSink
    {sinkColumn : String}
    (labelled : tm.hasDiscriminator = true)
    (distinct : (sinkCols sinkColumn tm).Nodup)
    (defaults : Sql.Row String String)
    (idVal embedVal : String)
    (metaVals : List String)
    (embedding : List φ) :
    Sql.excluded defaults (sinkCols sinkColumn tm)
        (upsertParams format tm idVal embedVal metaVals embedding)
        tm.discriminatorSink =
      some (cStr tm.discriminatorLabel) := by
  have columns : sinkCols sinkColumn tm = tm.idSink :: tm.discriminatorSink ::
      updateCols sinkColumn tm := by
    simp [sinkCols, keyColumns, scopeColumns, labelled]
  have params : upsertParams format tm idVal embedVal metaVals embedding =
      cStr idVal :: cStr tm.discriminatorLabel :: cStr embedVal ::
        (metaVals.map cStr ++ [cStr (vecLiteral format embedding)]) := by
    simp [upsertParams, keyParams, scopeParams, labelled]
  have apart : tm.discriminatorSink ≠ tm.idSink := by
    rw [columns, List.nodup_cons, List.mem_cons, not_or] at distinct
    exact Ne.symm distinct.1.1
  have first : (tm.discriminatorSink == tm.idSink) = false :=
    beq_eq_false_iff_ne.mpr apart
  simp [Sql.excluded, columns, params, List.lookup_cons, first]

/-- An upsert never changes a label. -/
theorem discriminatorSink_notMem_updateCols
    {sinkColumn : String}
    (labelled : tm.hasDiscriminator = true)
    (distinct : (sinkCols sinkColumn tm).Nodup) :
    tm.discriminatorSink ∉ updateCols sinkColumn tm := by
  refine (List.disjoint_of_nodup_append distinct) ?_
  simp [keyColumns, scopeColumns, labelled]

end Statements

end PgEmbeddingSink
end Walkrie
