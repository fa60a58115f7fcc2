import Walkrie.Event

/-!
# Loading and validating table mappings

The configurations of the three embedding sinks read their `table_mapping`
blocks alike and check them alike.  A sink is only created from a
configuration for which `validate()` reports no error, so that is part of what
a configuration is here.
-/

namespace Walkrie
namespace Sink

/-- One `table_mapping` block.  A key that is missing or is no text reads as
the empty text. -/
structure MappingBlock where
  sourceTable : String := ""
  discriminatorColumn : String := ""
  discriminatorLabel : String := ""
  columns : List ColumnMapping := []
  deriving DecidableEq, Repr

/-- The body of the loop of `load_from_config`.  Columns without a source
column or a role are dropped, and a label counts only with its column. -/
def MappingBlock.load (block : MappingBlock) : TableMapping :=
  let columns := block.columns.filter fun column =>
    column.sourceColumn ≠ "" ∧ column.role ≠ ""
  let mapping : TableMapping := { sourceTable := block.sourceTable, columns }
  let mapping :=
    if block.discriminatorColumn ≠ "" then
      { mapping with
        hasDiscriminator := true
        discriminatorSink := block.discriminatorColumn
        discriminatorLabel := block.discriminatorLabel }
    else mapping
  mapping.resolveColumns

/-- `load_from_config`: blocks without a source table are dropped. -/
def loadMappings (blocks : List MappingBlock) : List TableMapping :=
  (blocks.map MappingBlock.load).filter fun tm => tm.sourceTable ≠ ""

/-- One check of `validate()`. -/
def check (failed : Bool) (message : String) : List String :=
  if failed then [message] else []

/-- The body of the loop of `validate()`. -/
def validateMapping (tm : TableMapping) : List String :=
  let block := "[sink.table_mapping:" ++ tm.sourceTable ++ "] "
  check (tm.sourceTable = "")
      "[sink.table_mapping] source_table is required" ++
    check (tm.idSource = "") (block ++ "needs a mapping with role='id'") ++
    check (tm.embedSource = "")
      (block ++ "needs a mapping with role='embed'") ++
    check (tm.hasDiscriminator && tm.discriminatorLabel = "")
      (block ++ "discriminator_column is set but discriminator_label is empty")

/-- The part of `validate()` that concerns the mappings. -/
def validateMappings (mappings : List TableMapping) : List String :=
  check mappings.isEmpty
      "[sink] at least one [[sink.table_mapping]] block is required" ++
    mappings.flatMap validateMapping

@[simp]
theorem check_eq_nil_iff
    (failed : Bool)
    (message : String) :
    check failed message = [] ↔ failed = false := by
  cases failed <;> simp [check]

/-- Resolving columns sets the id and the embed column and nothing else. -/
theorem foldl_resolveColumn_frame
    (columns : List ColumnMapping)
    (tm : TableMapping) :
    ∃ idSource idSink embedSource embedSink,
      columns.foldl TableMapping.resolveColumn tm =
        { tm with idSource, idSink, embedSource, embedSink } := by
  induction columns generalizing tm with
  | nil => exact ⟨_, _, _, _, rfl⟩
  | cons column columns inductionHypothesis =>
      obtain ⟨_, _, _, _, rest⟩ :=
        inductionHypothesis (tm.resolveColumn column)
      rw [List.foldl_cons, rest, TableMapping.resolveColumn]
      split
      · exact ⟨_, _, _, _, rfl⟩
      split
      · exact ⟨_, _, _, _, rfl⟩
      · exact ⟨_, _, _, _, rfl⟩

/-- A mapping has a discriminator if the block names a column for it. -/
theorem discriminatorSink_of_mem_loadMappings
    {blocks : List MappingBlock}
    {tm : TableMapping}
    (member : tm ∈ loadMappings blocks)
    (labelled : tm.hasDiscriminator = true) :
    tm.discriminatorSink ≠ "" := by
  obtain ⟨block, _, rfl⟩ := List.mem_map.mp (List.mem_filter.mp member).1
  simp only [MappingBlock.load, TableMapping.resolveColumns] at labelled ⊢
  split at labelled <;> rename_i named
  · obtain ⟨_, _, _, _, resolved⟩ := foldl_resolveColumn_frame _ _
    rw [if_pos named, resolved]
    exact named
  · obtain ⟨_, _, _, _, resolved⟩ := foldl_resolveColumn_frame _ _
    rw [resolved] at labelled
    cases labelled

/-- A configuration that a sink can be created from. -/
structure SinkConfiguration where
  blocks : List MappingBlock
  valid : validateMappings (loadMappings blocks) = []

/-- The mappings of the sink. -/
def SinkConfiguration.mappings (config : SinkConfiguration) :
    List TableMapping :=
  loadMappings config.blocks

end Sink
end Walkrie
