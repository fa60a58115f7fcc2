import Walkrie.Sink.Live

/-!
# Updates that change the id

An update is turned into an upsert of the new id, or skipped when the text is
as before.  The row of the old id is not deleted in either case, and when the
update is skipped the row of the new id is not written.  The sink agrees with
the table again once a later event writes these rows.
-/

namespace Walkrie
namespace Sink
namespace Live

variable {φ : Type}

section Histories

variable {mappings : List TableMapping}
variable {tm : TableMapping}
variable {table : Texts}
variable {history : List (Change × ChangeEvent)}

/-- A sink whose disturbed rows are all rewritten later holds the ids and texts
of the table. -/
theorem agrees_of_settled
    (embed : String → List φ)
    (filled : ∀ text, embed text ≠ [])
    (mapped : mappings.find? (fun other =>
      other.sourceTable = tm.sourceTable) = some tm)
    {initial : Records φ}
    (agrees : Agrees tm initial table)
    (follows : Follows tm table history)
    (settled : ∀ id, Settled tm id history)
    {batches : List (Environment φ × List ChangeEvent)}
    (division : (batches.map Prod.snd).flatten = history.map Prod.snd)
    (answered : ∀ batch ∈ batches, Answers embed batch.1 ∧
      (callBatch batch.1 mappings batch.2).returned = true) :
    Agrees tm (initial.afterBatches mappings batches)
      (tableAfter table history) := by
  rw [afterBatches_eq filled mappings batches answered, division]
  intro id
  exact agreesAt_of_settled mapped follows (settled id) (.inl (agrees id))

/-! ## Orphans -/

/-- A row of the table takes up an id. -/
def Change.Takes (id : String) : Change → Prop
  | insert other _ => other = id
  | update _ newId _ => newId = id
  | _ => False

theorem apply_eq_none_of_not_takes
    {change : Change}
    {id : String}
    (other : ¬change.Takes id)
    (absent : table id = none) :
    change.apply table id = none := by
  cases change with
  | insert key text =>
      rw [Change.apply, Function.update_of_ne (Ne.symm other)]
      exact absent
  | update old newId text =>
      rw [Change.apply, Function.update_of_ne (Ne.symm other)]
      by_cases left : id = old
      · rw [left, Function.update_self]
      · rw [Function.update_of_ne left]
        exact absent
  | delete key =>
      by_cases gone : id = key
      · rw [Change.apply, gone, Function.update_self]
      · rw [Change.apply, Function.update_of_ne gone]
        exact absent
  | truncate => rfl
  | commit => exact absent

/-- A row that no change rewrites stays as it is, and an id that no row takes
up stays absent from the table. -/
theorem row_eq_of_not_rewrites
    (embed : String → List φ)
    {id : String}
    (mapped : mappings.find? (fun other =>
      other.sourceTable = tm.sourceTable) = some tm)
    (records : Records φ)
    (follows : Follows tm table history)
    (absent : table id = none)
    (unwritten : ∀ entry ∈ history,
      ¬entry.1.Rewrites (skips tm entry.2) id ∧ ¬entry.1.Takes id) :
    records.performAll embed (plan mappings (history.map Prod.snd))
        (tm.rowKey id) = records (tm.rowKey id) ∧
      tableAfter table history id = none := by
  induction history generalizing table records with
  | nil => exact ⟨rfl, absent⟩
  | cons entry history inductionHypothesis =>
      obtain ⟨change, event⟩ := entry
      obtain ⟨possible, ⟨identity, sent⟩, follows⟩ := follows
      rw [List.forall_mem_cons] at unwritten
      obtain ⟨⟨other, free⟩, later⟩ := unwritten
      rw [List.map_cons, performAll_cons]
      have last := inductionHypothesis
        ((planEvent mappings event).elim records (records.perform embed))
        follows (apply_eq_none_of_not_takes free absent) later
      refine ⟨last.1.trans ?_, last.2⟩
      rw [perform_planned]
      exact actPlanned_eq_of_not_rewrites
        (planEvent_sent mapped possible sent) other _

/-- A row whose id is changed stays behind under the old id, until an event
rewrites it or the id is taken up again. -/
theorem orphan_of_departure
    (embed : String → List φ)
    (mapped : mappings.find? (fun other =>
      other.sourceTable = tm.sourceTable) = some tm)
    {records : Records φ}
    {later : List (Change × ChangeEvent)}
    {id newId text : String}
    {event : ChangeEvent}
    (agrees : AgreesAt tm records table id)
    (follows : Follows tm table ((.update id newId text, event) :: later))
    (moved : newId ≠ id)
    (unwritten : ∀ entry ∈ later,
      ¬entry.1.Rewrites (skips tm entry.2) id ∧ ¬entry.1.Takes id) :
    tableAfter table ((.update id newId text, event) :: later) id = none ∧
      records.performAll embed (plan mappings (event :: later.map Prod.snd))
        (tm.rowKey id) ≠ none := by
  obtain ⟨possible, ⟨identity, sent⟩, follows⟩ := follows
  have left : (Change.update id newId text).apply table id = none := by
    rw [Change.apply, Function.update_of_ne (Ne.symm moved),
      Function.update_self]
  have present : records (tm.rowKey id) ≠ none := by
    intro missing
    rw [AgreesAt, missing] at agrees
    exact possible.1 (Option.map_eq_none_iff.mp agrees.symm)
  have last := row_eq_of_not_rewrites embed mapped
    ((planEvent mappings event).elim records (records.perform embed))
    follows left unwritten
  have silent : ¬(Change.update id newId text).Rewrites (skips tm event) id :=
    fun rewrites => moved rewrites.2
  refine ⟨last.2, ?_⟩
  rw [performAll_cons, last.1, perform_planned,
    actPlanned_eq_of_not_rewrites (planEvent_sent mapped possible sent) silent]
  exact present

end Histories

/-! ## Samples -/

/-- The row of the sample table gets another id.  The tuples show the same text
before and after. -/
def sampleRekey : List (Change × ChangeEvent) :=
  [(.update "1" "2" "old",
    articleUpdate (some (articleTuple .updateOld "1" "old" "a"))
      (articleTuple .updateNew "2" "old" "a"))]

/-- The row of the sample table gets another id and another text, and a new
row the old id.  The old tuple shows the key only. -/
def sampleReuse : List (Change × ChangeEvent) :=
  [(.update "1" "2" "new",
    articleUpdate
      (some
        { kind := .updateOld, columns := [{ name := "id", textValue := "1" }] })
      (articleTuple .updateNew "2" "new" "a")),
    (.insert "1" "one", articleInsert "1" "one" "b")]

theorem follows_sampleRekey : Follows articles sampleTable sampleRekey :=
  ⟨by decide, ⟨.full, rfl, rfl, ⟨_, rfl, rfl, .inl ⟨rfl, rfl⟩⟩,
    "old", rfl, rfl, .inl rfl⟩, trivial⟩

theorem follows_sampleReuse : Follows articles sampleTable sampleReuse :=
  ⟨by decide, ⟨.default, rfl, rfl, ⟨_, rfl, rfl, .inl ⟨rfl, rfl⟩⟩,
    "old", rfl, rfl, .inr ⟨rfl, rfl⟩⟩,
    by decide, ⟨.default, rfl, rfl, _, rfl, rfl, .inl ⟨rfl, rfl⟩⟩, trivial⟩

/-- Reusing the old id rewrites the row that was left behind. -/
theorem agrees_sampleReuse :
    Agrees articles
      (sampleRecords.afterBatches [articles]
        [(steady sampleEmbed, sampleReuse.map Prod.snd)])
      (tableAfter sampleTable sampleReuse) := by
  refine agrees_of_settled sampleEmbed (by simp [sampleEmbed]) (by decide)
    agrees_sample follows_sampleReuse ?_ (by decide) ?_
  · intro id
    refine ⟨?_, fun disturbs => disturbs.elim, trivial⟩
    rintro ⟨_, rfl | ⟨skipped, _⟩⟩
    · exact ⟨_, List.mem_singleton_self _, rfl⟩
    · exact absurd skipped (by decide)
  · rintro batch member
    cases List.mem_singleton.mp member
    exact ⟨answers_steady sampleEmbed, callBatch_steady_returned _ _⟩

/-- A key change alone leaves a row for an id the table does not have, and
none for the id it has. -/
theorem orphan_sampleRekey :
    Agrees articles sampleRecords sampleTable ∧
      Follows articles sampleTable sampleRekey ∧
      Answers sampleEmbed (steady sampleEmbed) ∧
      (callBatch (steady sampleEmbed) [articles]
        (sampleRekey.map Prod.snd)).returned = true ∧
      tableAfter sampleTable sampleRekey "1" = none ∧
      (sampleRecords.afterBatches [articles]
        [(steady sampleEmbed, sampleRekey.map Prod.snd)]
        (articles.rowKey "1")).isSome = true ∧
      tableAfter sampleTable sampleRekey "2" = some "old" ∧
      sampleRecords.afterBatches [articles]
        [(steady sampleEmbed, sampleRekey.map Prod.snd)]
        (articles.rowKey "2") = none :=
  ⟨agrees_sample, follows_sampleRekey, answers_steady sampleEmbed, by decide,
    by decide, by decide, by decide, by rfl⟩

end Live
end Sink
end Walkrie
