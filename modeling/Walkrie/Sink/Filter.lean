import Walkrie.Library.Comparison
import Walkrie.Sink.Document

/-!
# The filter of a truncate in Milvus

`MilvusSink::truncate` writes the label of the mapping between quotes as it
is.  A label is any text that is not empty, so the filter says something else,
or nothing at all, if the label has a quote or a backslash.
-/

namespace Walkrie
namespace MilvusSink

open Sink Comparison

/-- The filter of `MilvusSink::truncate`.  Without a discriminator it is one
that every row meets. -/
def truncateFilter (fields : Fields) (tm : TableMapping) : String :=
  if tm.hasDiscriminator then
    tm.discriminatorSink ++ " == \"" ++ tm.discriminatorLabel ++ "\""
  else if fields.pkIsVarchar then fields.pkField ++ " like \"%\""
  else fields.pkField ++ " >= -9223372036854775808"

/-- The filter of a labelled mapping is a comparison with its label, and
selects the rows that carry it, exactly when the column is an identifier and
the label has neither a quote nor a backslash. -/
theorem truncateFilter_scoped_iff
    (escape : Char → Char)
    (fields : Fields)
    (tm : TableMapping)
    (labelled : tm.hasDiscriminator = true) :
    (comparison? escape (truncateFilter fields tm) =
        some (tm.discriminatorSink, tm.discriminatorLabel) ∧
      ∀ rows : Set (String → Option String),
        {row ∈ rows | Selects escape (truncateFilter fields tm) row} =
          {row ∈ rows |
            row tm.discriminatorSink = some tm.discriminatorLabel}) ↔
      Identifier tm.discriminatorSink.toList ∧
        Plain tm.discriminatorLabel.toList := by
  have spelled : truncateFilter fields tm =
      equality tm.discriminatorSink tm.discriminatorLabel :=
    if_pos labelled
  rw [spelled, ← comparison?_equality_iff]
  refine and_iff_left_of_imp fun found rows => ?_
  ext row
  refine and_congr_right fun _ => ?_
  constructor
  · rintro ⟨comparison, read, carried⟩
    obtain rfl := Option.some.inj (read.symm.trans found)
    exact carried
  · intro carried
    exact ⟨_, found, carried⟩

/-- A mapping with the given label. -/
def labelledMapping (label : String) : TableMapping :=
  (labelledBlock "articles" label).load

/-- A label of letters selects its own rows. -/
theorem truncateFilter_scoped_article :
    comparison? id (truncateFilter articleFields (labelledMapping "article")) =
        some ("kind", "article") ∧
      ∀ rows : Set (String → Option String),
        {row ∈ rows | Selects id
            (truncateFilter articleFields (labelledMapping "article")) row} =
          {row ∈ rows | row "kind" = some "article"} :=
  (truncateFilter_scoped_iff id articleFields (labelledMapping "article")
    rfl).mpr (by decide)

/-- Labels that `validate()` accepts. -/
def awkwardLabels : SinkConfiguration where
  blocks :=
    [labelledBlock "articles" "x\" or kind like \"%",
      labelledBlock "pages" "a\\\\b", labelledBlock "notes" "a\\b"]
  valid := by decide

/-- A label with a quote turns the filter into another expression.  A label
with a backslash selects the rows of another mapping and leaves its own. -/
theorem truncateFilter_not_scoped :
    awkwardLabels.mappings =
      [labelledMapping "x\" or kind like \"%",
        { labelledMapping "a\\\\b" with sourceTable := "pages" },
        { labelledMapping "a\\b" with sourceTable := "notes" }] ∧
    truncateFilter articleFields (labelledMapping "x\" or kind like \"%") =
      "kind == \"x\" or kind like \"%\"" ∧
    comparison? id (truncateFilter articleFields
      (labelledMapping "x\" or kind like \"%")) = none ∧
    ¬Selects id (truncateFilter articleFields (labelledMapping "a\\\\b"))
      (fun _ => some "a\\\\b") ∧
    Selects id (truncateFilter articleFields (labelledMapping "a\\\\b"))
      (fun _ => some "a\\b") := by
  have other : comparison? id (truncateFilter articleFields
      (labelledMapping "a\\\\b")) = some ("kind", "a\\b") := by
    decide +kernel
  refine ⟨by decide, by decide, by decide +kernel, ?_, _, other, rfl⟩
  rintro ⟨comparison, read, carried⟩
  obtain rfl := Option.some.inj (read.symm.trans other)
  exact absurd carried (by decide)

end MilvusSink
end Walkrie
