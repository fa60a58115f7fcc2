import Walkrie.Sink.SqlBuilder

/-!
# Isolation of the mappings that share a table

Mappings that write to one sink table are told apart by their labels.  Every
statement of a mapping is confined to the rows with its label: an upsert has
the label in its conflict target and never changes it, a delete and a truncate
ask for it.  So the rows with a label depend on the events of its mapping
alone, in whatever batches and between whatever other events they come.

The label is bound up to its first NUL byte.  Labels that differ after one only
are the same label to the server, and their mappings share all their rows.
-/

namespace Walkrie
namespace Sink

open PgSqlBuilder PgEmbeddingSink

/-- All mappings name one discriminator column, with different labels, and no
statement names a column twice. -/
structure Labelled (sinkColumn column : String)
    (mappings : List TableMapping) : Prop where
  discriminated : ∀ tm ∈ mappings,
    tm.hasDiscriminator = true ∧ tm.discriminatorSink = column
  labels : mappings.Pairwise fun tm other =>
    tm.discriminatorLabel ≠ other.discriminatorLabel
  tables : mappings.Pairwise fun tm other =>
    tm.sourceTable ≠ other.sourceTable
  distinct : ∀ tm ∈ mappings, (sinkCols sinkColumn tm).Nodup

/-- The labels differ as they are bound. -/
def ToldApart (mappings : List TableMapping) : Prop :=
  mappings.Pairwise fun tm other =>
    cStr tm.discriminatorLabel ≠ cStr other.discriminatorLabel

instance (mappings : List TableMapping) : Decidable (ToldApart mappings) :=
  inferInstanceAs (Decidable (mappings.Pairwise _))

/-- An insert, update, delete or truncate of the mapping's table. -/
def ChangesTable (tm : TableMapping) (event : ChangeEvent) : Prop :=
  event.op ≠ .commit ∧ event.tableName = tm.sourceTable

instance (tm : TableMapping) (event : ChangeEvent) :
    Decidable (ChangesTable tm event) :=
  inferInstanceAs (Decidable (_ ∧ _))

section Isolation

variable {φ : Type}
variable {format : φ → String}
variable {sinkColumn column : String}
variable {mappings : List TableMapping}
variable {defaults : Sql.Row String String}
variable {embed : String → List φ}
variable {tm : TableMapping}
variable {action : BatchEvent}
variable {rows : Rows}

/-- The rows with the label of a mapping, as it is bound. -/
def labelled (column : String) (tm : TableMapping) (rows : Rows) : Rows :=
  Sql.scope column (cStr tm.discriminatorLabel) rows

/-! ## One action -/

/-- The statement of an action, and its parameters. -/
theorem statement?_write
    (tables : mappings.Pairwise fun tm other =>
      tm.sourceTable ≠ other.sourceTable)
    (mapped : action.tm ∈ mappings) :
    statement? format sinkColumn mappings (action.write embed) =
      some (match action.kind with
        | .upsert =>
            (buildUpsertSql sinkColumn action.tm,
              upsertParams format action.tm action.idVal action.embedVal
                action.metaVals (embed action.embedVal))
        | .delete =>
            (buildDeleteSql action.tm, keyParams action.tm action.idVal)
        | .truncate =>
            (buildTruncateSql action.tm, scopeParams action.tm)) := by
  unfold BatchEvent.write
  cases action.kind with
  | upsert => simp only [statement?, lookup_sqlList tables mapped,
      Option.map_some]
  | delete => simp only [statement?, lookup_sqlList tables mapped,
      Option.map_some]
  | truncate => simp only [statement?, lookup_sqlList tables mapped,
      Option.map_some]

/-- An action of the mapping sees only the rows with its label. -/
theorem Labelled.execute_self
    (apart : Labelled sinkColumn column mappings)
    (mapped : action.tm ∈ mappings) :
    labelled column action.tm
        (execute format sinkColumn mappings defaults rows
          (action.write embed)) =
      execute format sinkColumn mappings defaults
        (labelled column action.tm rows) (action.write embed) := by
  obtain ⟨discriminated, rfl⟩ := apart.discriminated _ mapped
  unfold execute labelled
  rw [statement?_write apart.tables mapped]
  cases action.kind with
  | upsert =>
      refine Sql.scope_upsert_self ?_
        (discriminatorSink_notMem_updateCols discriminated
          (apart.distinct _ mapped))
        (excluded_discriminatorSink discriminated (apart.distinct _ mapped)
          _ _ _ _ _)
      simp [keyColumns, scopeColumns, discriminated]
  | delete => exact Sql.scope_delete
  | truncate => exact Sql.scope_delete

/-- An action of another mapping leaves these rows alone. -/
theorem Labelled.execute_other
    (apart : Labelled sinkColumn column mappings)
    (mapped : action.tm ∈ mappings)
    (different :
      cStr action.tm.discriminatorLabel ≠ cStr tm.discriminatorLabel) :
    labelled column tm
        (execute format sinkColumn mappings defaults rows
          (action.write embed)) =
      labelled column tm rows := by
  obtain ⟨discriminated, rfl⟩ := apart.discriminated _ mapped
  unfold execute labelled
  rw [statement?_write apart.tables mapped]
  cases action.kind with
  | upsert =>
      refine Sql.scope_upsert_other ?_
        (discriminatorSink_notMem_updateCols discriminated
          (apart.distinct _ mapped))
        (excluded_discriminatorSink discriminated (apart.distinct _ mapped)
          _ _ _ _ _) different
      simp [keyColumns, scopeColumns, discriminated]
  | delete =>
      refine Sql.scope_delete_other ?_ different
      simp [keyColumns, scopeColumns, keyParams, scopeParams, discriminated]
  | truncate =>
      refine Sql.scope_delete_other ?_ different
      simp [scopeColumns, scopeParams, discriminated]

/-! ## Whole runs -/

/-- Of a list of actions only those of the mapping count. -/
theorem Labelled.foldl_execute
    (apart : Labelled sinkColumn column mappings)
    {batch : List BatchEvent}
    (mapped : ∀ action ∈ batch, action.tm ∈ mappings)
    (rows : Rows) :
    labelled column tm
        ((batch.map (BatchEvent.write embed)).foldl
          (execute format sinkColumn mappings defaults) rows) =
      ((batch.filter fun action =>
          cStr action.tm.discriminatorLabel = cStr tm.discriminatorLabel).map
        (BatchEvent.write embed)).foldl
          (execute format sinkColumn mappings defaults)
          (labelled column tm rows) := by
  induction batch generalizing rows with
  | nil => rfl
  | cons action batch inductionHypothesis =>
      rw [List.forall_mem_cons] at mapped
      rw [List.map_cons, List.foldl_cons, inductionHypothesis mapped.2]
      by_cases own :
          cStr action.tm.discriminatorLabel = cStr tm.discriminatorLabel
      · have self : labelled column tm
            (execute format sinkColumn mappings defaults rows
              (action.write embed)) =
              execute format sinkColumn mappings defaults
                (labelled column tm rows) (action.write embed) := by
          unfold labelled
          rw [← own]
          exact apart.execute_self mapped.1
        rw [List.filter_cons_of_pos (by simpa using own), List.map_cons,
          List.foldl_cons, self]
      · rw [List.filter_cons_of_neg (by simpa using own),
          apart.execute_other mapped.1 own]

/-- The mapping of a table is found by its label. -/
theorem Labelled.label_eq_iff
    (apart : Labelled sinkColumn column mappings)
    (told : ToldApart mappings)
    (member : tm ∈ mappings)
    {other : TableMapping}
    (otherMember : other ∈ mappings) :
    cStr other.discriminatorLabel = cStr tm.discriminatorLabel ↔
      other.sourceTable = tm.sourceTable := by
  constructor
  · intro same
    rw [List.inj_on_of_nodup_map (List.pairwise_map.mpr told)
      otherMember member same]
  · intro same
    rw [List.inj_on_of_nodup_map (List.pairwise_map.mpr apart.tables)
      otherMember member same]

/-- The actions of a mapping are planned from the events of its table. -/
theorem Labelled.filter_plan
    (apart : Labelled sinkColumn column mappings)
    (told : ToldApart mappings)
    (member : tm ∈ mappings)
    (events : List ChangeEvent) :
    (plan mappings events).filter (fun action =>
        cStr action.tm.discriminatorLabel = cStr tm.discriminatorLabel) =
      plan mappings (events.filter (ChangesTable tm)) := by
  unfold plan
  rw [List.filter_filterMap, List.filterMap_filter]
  congr 1
  funext event
  cases planned : planEvent mappings event with
  | none => simp
  | some action =>
      obtain ⟨found, ways⟩ := planEvent_eq_some_iff.mp planned
      have table : action.tm.sourceTable = event.tableName := by
        simpa using List.find?_some found
      have carried : event.op ≠ .commit := by
        intro commit
        simp [planEvent, commit] at planned
      have same :
          cStr action.tm.discriminatorLabel = cStr tm.discriminatorLabel ↔
            ChangesTable tm event := by
        rw [apart.label_eq_iff told member
          (List.mem_of_find?_eq_some found), table]
        exact ⟨fun same => ⟨carried, same⟩, And.right⟩
      by_cases concerns : ChangesTable tm event
      · simp [concerns, same]
      · simp [concerns, same]

/-- A sequence of invocations that return executes what is planned for their
events. -/
theorem afterBatches_eq_foldl
    (filled : ∀ text, embed text ≠ [])
    {batches : List (Environment φ × List ChangeEvent)}
    (answered : ∀ batch ∈ batches, Answers embed batch.1 ∧
      (callBatch batch.1 mappings batch.2).returned = true)
    (rows : Rows) :
    afterBatches format sinkColumn mappings defaults rows batches =
      ((plan mappings (batches.map Prod.snd).flatten).map
        (BatchEvent.write embed)).foldl
          (execute format sinkColumn mappings defaults) rows := by
  unfold afterBatches
  induction batches generalizing rows with
  | nil => rfl
  | cons batch batches inductionHypothesis =>
      rw [List.forall_mem_cons] at answered
      obtain ⟨⟨answers, returned⟩, later⟩ := answered
      obtain ⟨made, _, writes, complete⟩ :=
        answers.callBatch filled mappings batch.2
      have calls :
          (PgEmbeddingSink.callBatch batch.1 mappings batch.2).calls =
            (plan mappings batch.2).map (BatchEvent.write embed) := by
        rw [PgEmbeddingSink.callBatch, Applied.calls, writes,
          complete returned, List.take_length, List.map_map]
        rfl
      rw [List.foldl_cons, inductionHypothesis later, calls, List.map_cons,
        List.flatten_cons, plan, plan, plan, List.filterMap_append,
        List.map_append, List.foldl_append]

/-- What a run leaves of a label is decided by the rows with the label and the
events of its mapping. -/
theorem Labelled.labelled_afterBatches
    (apart : Labelled sinkColumn column mappings)
    (told : ToldApart mappings)
    (member : tm ∈ mappings)
    (filled : ∀ text, embed text ≠ [])
    {batches : List (Environment φ × List ChangeEvent)}
    (answered : ∀ batch ∈ batches, Answers embed batch.1 ∧
      (callBatch batch.1 mappings batch.2).returned = true)
    (rows : Rows) :
    labelled column tm
        (afterBatches format sinkColumn mappings defaults rows batches) =
      ((plan mappings ((batches.map Prod.snd).flatten.filter
          (ChangesTable tm))).map (BatchEvent.write embed)).foldl
        (execute format sinkColumn mappings defaults)
        (labelled column tm rows) := by
  rw [afterBatches_eq_foldl filled answered, apart.foldl_execute ?_,
    apart.filter_plan told member]
  intro action among
  obtain ⟨event, _, planned⟩ := List.mem_filterMap.mp among
  exact List.mem_of_find?_eq_some (planEvent_eq_some_iff.mp planned).1

end Isolation

/-- Two runs that agree on the rows with a label and on the events of its
mapping leave the same rows with the label, whatever the other mappings do and
however the events are divided into batches. -/
theorem labelled_isolated
    {φ : Type}
    (format : φ → String)
    {sinkColumn column : String}
    {mappings : List TableMapping}
    (apart : Labelled sinkColumn column mappings)
    (told : ToldApart mappings)
    {tm : TableMapping}
    (member : tm ∈ mappings)
    (defaults : Sql.Row String String)
    {embed : String → List φ}
    (filled : ∀ text, embed text ≠ [])
    {rows rows' : Rows}
    (initial : labelled column tm rows = labelled column tm rows')
    {batches batches' : List (Environment φ × List ChangeEvent)}
    (answered : ∀ batch ∈ batches ++ batches', Answers embed batch.1 ∧
      (callBatch batch.1 mappings batch.2).returned = true)
    (events :
      (batches.map Prod.snd).flatten.filter (ChangesTable tm) =
        (batches'.map Prod.snd).flatten.filter (ChangesTable tm)) :
    labelled column tm
        (afterBatches format sinkColumn mappings defaults rows batches) =
      labelled column tm
        (afterBatches format sinkColumn mappings defaults rows'
          batches') := by
  rw [List.forall_mem_append] at answered
  rw [apart.labelled_afterBatches told member filled answered.1,
    apart.labelled_afterBatches told member filled answered.2, events,
    initial]

/-- Comments are written to the same table as articles. -/
def comments : TableMapping :=
  TableMapping.resolveColumns
    { sourceTable := "comments"
      columns := [⟨"id", "source_id", "id"⟩, ⟨"line", "text", "embed"⟩]
      hasDiscriminator := true
      discriminatorSink := "kind"
      discriminatorLabel := "comment" }

theorem labelled_articles :
    Labelled "embedding" "kind" [articles, comments] where
  discriminated := by decide
  labels := by decide
  tables := by decide
  distinct := by decide

/-- An article stays when the comments are truncated before or after it is
inserted, and one of them has its id. -/
theorem labelled_isolated_articles :
    labelled "kind" articles
        (afterBatches toString "embedding" [articles, comments]
          (fun _ => none) 0
          [(steady sampleEmbed,
              [{ op := .truncate, tableName := "comments" },
                articleInsert "1" "body" "a"]),
            (steady sampleEmbed,
              [{ op := .delete
                 tableName := "comments"
                 oldRow := some (articleTuple .delete "1" "" "") },
                { op := .truncate, tableName := "comments" }])]) =
      labelled "kind" articles
        (afterBatches toString "embedding" [articles, comments]
          (fun _ => none) 0
          [(steady sampleEmbed, [articleInsert "1" "body" "a"])]) := by
  refine labelled_isolated _ labelled_articles (by decide) (by simp) _
    (show ∀ text, sampleEmbed text ≠ [] by simp [sampleEmbed]) rfl ?_
    (by decide)
  simp only [List.cons_append, List.nil_append, List.mem_cons,
    List.not_mem_nil, or_false]
  rintro batch (rfl | rfl | rfl)
  · exact ⟨answers_steady sampleEmbed, callBatch_steady_returned _ _⟩
  · exact ⟨answers_steady sampleEmbed, callBatch_steady_returned _ _⟩
  · exact ⟨answers_steady sampleEmbed, callBatch_steady_returned _ _⟩

/-- Comments with a label that is the articles' up to a NUL byte. -/
def hiddenComments : TableMapping :=
  { comments with discriminatorLabel := "article\x00comment" }

/-- One article and no comment. -/
def oneArticle : Environment Nat × List ChangeEvent :=
  (steady sampleEmbed, [articleInsert "1" "body" "a"])

/-- A truncate of the comments. -/
def commentsTruncate : Environment Nat × List ChangeEvent :=
  (steady sampleEmbed, [{ op := .truncate, tableName := "comments" }])

/-- The labels are different, but the truncate of the comments removes the
article. -/
theorem not_isolated_hiddenComments :
    Labelled "embedding" "kind" [articles, hiddenComments] ∧
      (∀ text, sampleEmbed text ≠ []) ∧
      (∀ batch ∈ [oneArticle, commentsTruncate],
        Answers sampleEmbed batch.1 ∧
          (callBatch batch.1 [articles, hiddenComments] batch.2).returned =
            true) ∧
      (([oneArticle].map Prod.snd).flatten.filter (ChangesTable articles) =
        ([oneArticle, commentsTruncate].map Prod.snd).flatten.filter
          (ChangesTable articles)) ∧
      labelled "kind" articles
          (afterBatches toString "embedding" [articles, hiddenComments]
            (fun _ => none) 0 [oneArticle]) ≠
        labelled "kind" articles
          (afterBatches toString "embedding" [articles, hiddenComments]
            (fun _ => none) 0 [oneArticle, commentsTruncate]) := by
  refine ⟨⟨by decide, by decide, by decide, by decide⟩,
    by simp [sampleEmbed], ?_, by decide, ?_⟩
  · simp only [List.forall_mem_cons, oneArticle, commentsTruncate]
    exact ⟨⟨answers_steady sampleEmbed, callBatch_steady_returned _ _⟩,
      ⟨answers_steady sampleEmbed, callBatch_steady_returned _ _⟩, by simp⟩
  · intro same
    have counts := congrArg Multiset.card same
    revert counts
    decide +kernel

end Sink
end Walkrie
