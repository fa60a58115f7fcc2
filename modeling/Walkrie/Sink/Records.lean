import Walkrie.Library.Replay
import Walkrie.Sink.Content

/-!
# The rows of a sink table

A finer view of a sink than the texts alone: the columns an upsert assigns and
the vector.  An upsert of a row that exists leaves the columns of other
mappings alone.  A delete or truncate without discriminator is not confined to
the rows of its mapping.  The statements are those `PgSqlBuilder` builds.
-/

namespace Walkrie

namespace TableMapping

/-- Sink columns mapped as metadata, in configuration order. -/
def metadataSinks (tm : TableMapping) : List String :=
  (tm.columns.filter fun column => column.role = "metadata").map
    ColumnMapping.sinkColumn

/-- The columns an upsert sets besides the vector, with their parameters. -/
def assignments (tm : TableMapping) (embedVal : String)
    (metaVals : List String) : List (String × String) :=
  (tm.embedSink, embedVal) :: tm.metadataSinks.zip metaVals

/-- The discriminator condition of a delete or truncate. -/
def Scopes (tm : TableMapping) (discriminator : Option String) : Prop :=
  tm.discriminator = none ∨ discriminator = tm.discriminator

instance (tm : TableMapping) (discriminator : Option String) :
    Decidable (tm.Scopes discriminator) :=
  inferInstanceAs (Decidable (_ ∨ _))

theorem scopes_self (tm : TableMapping) : tm.Scopes tm.discriminator :=
  .inr rfl

end TableMapping

namespace Sink

variable {φ : Type}

/-- A row without its key.  A column nobody has set has its default. -/
structure Record (φ : Type) where
  columns : String → Option String := fun _ => none
  embedding : List φ := []

/-- `DO UPDATE SET`, or the row that is inserted. -/
def Record.assign (record : Record φ) (assignments : List (String × String))
    (embedding : List φ) : Record φ where
  columns := fun column =>
    (assignments.lookup column).or (record.columns column)
  embedding := embedding

/-- A sink table, keyed by id and discriminator. -/
abbrev Records (φ : Type) := String × Option String → Option (Record φ)

/-- The write an action asks for, given the embedding of each text. -/
def BatchEvent.write (embed : String → List φ) (action : BatchEvent) :
    Write φ :=
  match action.kind with
  | .upsert =>
      .upsert action.tm action.idVal action.embedVal action.metaVals
        (embed action.embedVal)
  | .delete => .remove action.tm action.idVal
  | .truncate => .truncate action.tm

namespace Records

/-- `build_upsert_sql`. -/
def upsert (records : Records φ) (tm : TableMapping) (idVal embedVal : String)
    (metaVals : List String) (embedding : List φ) : Records φ :=
  fun key =>
    if tm.rowKey idVal = key then
      some (((records key).getD {}).assign (tm.assignments embedVal metaVals)
        embedding)
    else records key

/-- `build_delete_sql`. -/
def remove (records : Records φ) (tm : TableMapping) (idVal : String) :
    Records φ :=
  fun key =>
    if key.1 = idVal ∧ tm.Scopes key.2 then none else records key

/-- `build_truncate_sql`. -/
def truncate (records : Records φ) (tm : TableMapping) : Records φ :=
  fun key => if tm.Scopes key.2 then none else records key

/-- Effect of a successful write. -/
def write (records : Records φ) : Write φ → Records φ
  | .upsert tm idVal embedVal metaVals embedding =>
      records.upsert tm idVal embedVal metaVals embedding
  | .remove tm idVal => records.remove tm idVal
  | .truncate tm => records.truncate tm

/-- Effect of a planned action whose write succeeds. -/
def perform (embed : String → List φ) (records : Records φ)
    (action : BatchEvent) : Records φ :=
  records.write (action.write embed)

/-- Effect of a list of planned actions. -/
def performAll (embed : String → List φ) (records : Records φ)
    (batch : List BatchEvent) : Records φ :=
  batch.foldl (perform embed) records

/-- What an invocation of `call_batch` leaves in the table. -/
def after (records : Records φ) (applied : Applied φ) : Records φ :=
  (applied.writes.map Prod.fst).foldl write records

end Records

/-! ## One row -/

/-- What an action does to the row with one key. -/
def BatchEvent.act (embed : String → List φ) (key : String × Option String)
    (row : Option (Record φ)) (action : BatchEvent) : Option (Record φ) :=
  match action.kind with
  | .upsert =>
      if action.tm.rowKey action.idVal = key then
        some ((row.getD {}).assign
          (action.tm.assignments action.embedVal action.metaVals)
          (embed action.embedVal))
      else row
  | .delete =>
      if key.1 = action.idVal ∧ action.tm.Scopes key.2 then none else row
  | .truncate => if action.tm.Scopes key.2 then none else row

namespace Records

variable {embed : String → List φ}

theorem perform_apply
    (records : Records φ)
    (action : BatchEvent)
    (key : String × Option String) :
    records.perform embed action key =
      action.act embed key (records key) := by
  unfold perform BatchEvent.write BatchEvent.act
  cases action.kind <;> rfl

/-- Rows do not depend on each other. -/
theorem performAll_apply
    (records : Records φ)
    (batch : List BatchEvent)
    (key : String × Option String) :
    records.performAll embed batch key =
      batch.foldl (BatchEvent.act embed key) (records key) := by
  unfold performAll
  induction batch generalizing records with
  | nil => rfl
  | cons action batch inductionHypothesis =>
      rw [List.foldl_cons, List.foldl_cons, inductionHypothesis,
        perform_apply]

theorem performAll_append
    (records : Records φ)
    (batch later : List BatchEvent) :
    records.performAll embed (batch ++ later) =
      (records.performAll embed batch).performAll embed later :=
  List.foldl_append

end Records

/-! ## Repeated writes -/

section Repeated

variable {embed : String → List φ}
variable {key : String × Option String}

/-- Two rows that differ at most in columns the assignments set, a missing row
counting as one with defaults. -/
def AlikeBut (assignments : List (String × String))
    (row other : Option (Record φ)) : Prop :=
  ∀ column, assignments.lookup column = none →
    (row.getD {}).columns column = (other.getD {}).columns column

theorem AlikeBut.act
    {assignments : List (String × String)}
    {row other : Option (Record φ)}
    (alike : AlikeBut assignments row other)
    (action : BatchEvent) :
    AlikeBut assignments (action.act embed key row)
      (action.act embed key other) := by
  intro column unset
  unfold BatchEvent.act
  cases action.kind with
  | upsert =>
      dsimp only
      split
      · simp only [Option.getD_some, Record.assign, alike column unset]
      · exact alike column unset
  | delete =>
      dsimp only
      split
      · rfl
      · exact alike column unset
  | truncate =>
      dsimp only
      split
      · rfl
      · exact alike column unset

theorem AlikeBut.foldl_act
    {assignments : List (String × String)}
    {row other : Option (Record φ)}
    (alike : AlikeBut assignments row other)
    (batch : List BatchEvent) :
    AlikeBut assignments (batch.foldl (BatchEvent.act embed key) row)
      (batch.foldl (BatchEvent.act embed key) other) := by
  induction batch generalizing row other with
  | nil => exact alike
  | cons action batch inductionHypothesis =>
      exact inductionHypothesis (alike.act action)

/-- The rows an assignment leaves are equal when they were alike in all other
columns. -/
theorem AlikeBut.assign_eq
    {assignments : List (String × String)}
    {row other : Option (Record φ)}
    (alike : AlikeBut assignments row other)
    (embedding : List φ) :
    (row.getD {}).assign assignments embedding =
      (other.getD {}).assign assignments embedding := by
  unfold Record.assign
  congr 1
  funext column
  cases set : assignments.lookup column with
  | none => exact alike column set
  | some value => rfl

/-- An earlier act on a row does not show once the action acts again. -/
theorem foldl_act_superseded
    (row : Option (Record φ))
    (action : BatchEvent)
    (between : List BatchEvent) :
    (between ++ [action]).foldl (BatchEvent.act embed key)
        (action.act embed key row) =
      (between ++ [action]).foldl (BatchEvent.act embed key) row := by
  rw [List.foldl_append, List.foldl_append]
  cases kind : action.kind with
  | upsert =>
      by_cases own : action.tm.rowKey action.idVal = key
      · have alike : AlikeBut
            (action.tm.assignments action.embedVal action.metaVals)
            (action.act embed key row) row := by
          intro column unset
          simp [BatchEvent.act, kind, own, Record.assign, unset]
        have folded : AlikeBut _
            (between.foldl (BatchEvent.act embed key)
              (action.act embed key row))
            (between.foldl (BatchEvent.act embed key) row) :=
          alike.foldl_act between
        have later := folded.assign_eq (embed action.embedVal)
        have acts : ∀ row : Option (Record φ), action.act embed key row =
            some ((row.getD {}).assign
              (action.tm.assignments action.embedVal action.metaVals)
              (embed action.embedVal)) := by
          intro row
          simp [BatchEvent.act, kind, own]
        simp only [List.foldl_cons, List.foldl_nil]
        rw [acts, later, ← acts]
      · simp [BatchEvent.act, kind, own]
  | delete =>
      by_cases own : key.1 = action.idVal ∧ action.tm.Scopes key.2
      · simp [BatchEvent.act, kind, own]
      · simp [BatchEvent.act, kind, own]
  | truncate =>
      by_cases own : action.tm.Scopes key.2
      · simp [BatchEvent.act, kind, own]
      · simp [BatchEvent.act, kind, own]

/-- Writes supersede their earlier repetitions: upserts are idempotent even
across other writes. -/
theorem superseding_perform (embed : String → List φ) :
    Replay.Superseding (Records.perform embed) := by
  intro records action between
  funext key
  have left : (records.perform embed action).performAll embed
      (between ++ [action]) key = _ := Records.performAll_apply _ _ key
  have right : records.performAll embed (between ++ [action]) key = _ :=
    Records.performAll_apply _ _ key
  rw [Records.perform_apply, foldl_act_superseded, ← right] at left
  exact left

end Repeated

/-! ## Invocations that may be cut off -/

section Answers

variable {embed : String → List φ}
variable {environment : Environment φ}

/-- Whatever the provider answers is the embedding of each text, and whatever
the store answers is success.  Either may also not answer: an exception, or
the end of the process. -/
structure Answers (embed : String → List φ) (environment : Environment φ) :
    Prop where
  embeds : ∀ texts, ∀ vectors ∈ environment.embedBatch texts,
    vectors = texts.map embed
  writes : ∀ count write, ∀ result ∈ environment.write count write,
    result = true

/-- Issuing a write either makes it and goes on, or ends the invocation. -/
theorem Answers.issue
    (answers : Answers embed environment)
    (count : Nat)
    (write : Write φ)
    (rest : Applied φ) :
    Sink.issue environment count write rest = { returned := false } ∨
      Sink.issue environment count write rest =
        { rest with writes := (write, true) :: rest.writes } := by
  unfold Sink.issue
  cases answer : environment.write count write with
  | none => exact .inl rfl
  | some result =>
      cases answers.writes count write result answer
      exact .inr rfl

/-- The loop makes the first of the planned writes, all of them if it
returns. -/
theorem Answers.applyBatch
    (answers : Answers embed environment)
    (filled : ∀ text, embed text ≠ [])
    (count : Nat)
    (batch : List BatchEvent) :
    ∃ made ≤ batch.length,
      (Sink.applyBatch environment count batch
          ((textsToEmbed batch).map embed)).writes =
        (batch.take made).map (fun action => (action.write embed, true)) ∧
      ((Sink.applyBatch environment count batch
          ((textsToEmbed batch).map embed)).returned = true →
        made = batch.length) := by
  induction batch generalizing count with
  | nil => exact ⟨0, le_rfl, rfl, fun _ => rfl⟩
  | cons action batch inductionHypothesis =>
      obtain ⟨made, inside, writes, complete⟩ :=
        inductionHypothesis (count + 1)
      have issued : Sink.applyBatch environment count (action :: batch)
          ((textsToEmbed (action :: batch)).map embed) =
            Sink.issue environment count (action.write embed)
              (Sink.applyBatch environment (count + 1) batch
                ((textsToEmbed batch).map embed)) := by
        cases kind : action.kind <;>
          simp [Sink.applyBatch, textsToEmbed, BatchEvent.text?,
            BatchEvent.write, kind, filled]
      rw [issued]
      rcases answers.issue count (action.write embed)
        (Sink.applyBatch environment (count + 1) batch
          ((textsToEmbed batch).map embed)) with cut | whole
      · rw [cut]
        exact ⟨0, Nat.zero_le _, rfl, fun returned => by cases returned⟩
      · rw [whole]
        refine ⟨made + 1, Nat.succ_le_succ inside, ?_, ?_⟩
        · simp [writes]
        · intro returned
          rw [List.length_cons, complete returned]

/-- An invocation makes the first of the planned writes, all of them if it
returns. -/
theorem Answers.callBatch
    (answers : Answers embed environment)
    (filled : ∀ text, embed text ≠ [])
    (mappings : List TableMapping)
    (events : List ChangeEvent) :
    ∃ made ≤ (plan mappings events).length,
      (Sink.callBatch environment mappings events).writes =
        ((plan mappings events).take made).map
          (fun action => (action.write embed, true)) ∧
      ((Sink.callBatch environment mappings events).returned = true →
        made = (plan mappings events).length) := by
  unfold Sink.callBatch
  generalize plan mappings events = batch
  dsimp only
  by_cases planned : batch = []
  · subst planned
    exact ⟨0, le_rfl, rfl, fun _ => rfl⟩
  rw [if_neg (by simpa using planned)]
  have applied := answers.applyBatch filled 0 batch
  by_cases texts : textsToEmbed batch = []
  · rw [texts] at applied ⊢
    exact applied
  rw [if_neg (by simpa using texts)]
  cases answer : environment.embedBatch (textsToEmbed batch) with
  | none => exact ⟨0, Nat.zero_le _, rfl, fun returned => by cases returned⟩
  | some vectors =>
      cases answers.embeds _ vectors answer
      simpa using applied

/-- An invocation that returns leaves in the table what its plan says. -/
theorem Answers.after_callBatch
    (answers : Answers embed environment)
    (filled : ∀ text, embed text ≠ [])
    (mappings : List TableMapping)
    (events : List ChangeEvent)
    (returned : (Sink.callBatch environment mappings events).returned = true)
    (records : Records φ) :
    records.after (Sink.callBatch environment mappings events) =
      records.performAll embed (plan mappings events) := by
  obtain ⟨made, _, writes, complete⟩ :=
    answers.callBatch filled mappings events
  rw [Records.after, writes, complete returned, List.take_length,
    List.map_map, List.foldl_map]
  rfl

/-- Every text gets its embedding and every write succeeds. -/
def steady (embed : String → List φ) : Environment φ where
  embedBatch := fun texts => some (texts.map embed)
  write := fun _ _ => some true

theorem answers_steady (embed : String → List φ) :
    Answers embed (steady embed) where
  embeds := by
    intro texts vectors answer
    exact (Option.some_inj.mp answer).symm
  writes := by
    intro count write result answer
    exact (Option.some_inj.mp answer).symm

theorem applyBatch_steady_returned
    (count : Nat)
    (batch : List BatchEvent)
    (vectors : List (List φ)) :
    (Sink.applyBatch (steady embed) count batch vectors).returned = true := by
  induction batch generalizing count vectors with
  | nil => rfl
  | cons action batch inductionHypothesis =>
      unfold Sink.applyBatch
      cases action.kind with
      | upsert =>
          dsimp only
          split
          · exact inductionHypothesis _ _
          · exact inductionHypothesis _ _
      | delete => exact inductionHypothesis _ _
      | truncate => exact inductionHypothesis _ _

theorem callBatch_steady_returned
    (mappings : List TableMapping)
    (events : List ChangeEvent) :
    (Sink.callBatch (steady embed) mappings events).returned = true := by
  unfold Sink.callBatch
  dsimp only [steady]
  split
  · rfl
  split
  · exact applyBatch_steady_returned 0 _ _
  split
  · rfl
  · exact applyBatch_steady_returned 0 _ _

/-- Applying a list of events once, in one batch nothing interrupts. -/
theorem after_steady
    (filled : ∀ text, embed text ≠ [])
    (mappings : List TableMapping)
    (events : List ChangeEvent)
    (records : Records φ) :
    records.after (Sink.callBatch (steady embed) mappings events) =
      records.performAll embed (plan mappings events) :=
  (answers_steady embed).after_callBatch filled mappings events
    (callBatch_steady_returned mappings events) records

/-- What a sequence of invocations leaves in the table. -/
def Records.afterBatches
    (mappings : List TableMapping)
    (records : Records φ)
    (batches : List (Environment φ × List ChangeEvent)) : Records φ :=
  batches.foldl
    (fun records batch =>
      records.after (Sink.callBatch batch.1 mappings batch.2))
    records

/-- How a list of events is divided into batches does not show. -/
theorem afterBatches_eq
    (filled : ∀ text, embed text ≠ [])
    (mappings : List TableMapping)
    (batches : List (Environment φ × List ChangeEvent))
    (answered : ∀ batch ∈ batches, Answers embed batch.1 ∧
      (Sink.callBatch batch.1 mappings batch.2).returned = true)
    (records : Records φ) :
    records.afterBatches mappings batches =
      records.performAll embed
        (plan mappings (batches.map Prod.snd).flatten) := by
  induction batches generalizing records with
  | nil => rfl
  | cons batch batches inductionHypothesis =>
      rw [List.forall_mem_cons] at answered
      obtain ⟨⟨answers, returned⟩, later⟩ := answered
      have first := answers.after_callBatch filled mappings batch.2 returned
        records
      have rest := inductionHypothesis later
        (records.after (Sink.callBatch batch.1 mappings batch.2))
      rw [first, ← Records.performAll_append] at rest
      rw [List.map_cons, List.flatten_cons, plan, List.filterMap_append,
        ← plan, ← plan, ← rest, ← first]
      rfl

end Answers

/-! ## Vectors -/

/-- The vector of the row, if there is one, is that of its text. -/
def Embedded (embed : String → List φ) (column : String)
    (row : Option (Record φ)) : Prop :=
  ∀ record ∈ row, ∃ text,
    record.columns column = some text ∧ record.embedding = embed text

/-- A row that actions changed has the vector of its text. -/
theorem foldl_act_embedded
    {embed : String → List φ}
    {key : String × Option String}
    {column : String}
    {batch : List BatchEvent}
    (into : ∀ action ∈ batch, action.tm.embedSink = column)
    (row : Option (Record φ)) :
    batch.foldl (BatchEvent.act embed key) row = row ∨
      Embedded embed column (batch.foldl (BatchEvent.act embed key) row) := by
  induction batch generalizing row with
  | nil => exact .inl rfl
  | cons action batch inductionHypothesis =>
      rw [List.forall_mem_cons] at into
      obtain ⟨own, later⟩ := into
      have acted : action.act embed key row = row ∨
          Embedded embed column (action.act embed key row) := by
        unfold BatchEvent.act
        cases action.kind with
        | upsert =>
            dsimp only
            split
            · refine .inr fun record present => ?_
              cases present
              exact ⟨action.embedVal,
                by simp [Record.assign, TableMapping.assignments, own], rfl⟩
            · exact .inl rfl
        | delete =>
            dsimp only
            split
            · exact .inr fun record present => by cases present
            · exact .inl rfl
        | truncate =>
            dsimp only
            split
            · exact .inr fun record present => by cases present
            · exact .inl rfl
      rw [List.foldl_cons]
      rcases inductionHypothesis later (action.act embed key row) with
        same | embedded
      · rw [same]
        exact acted
      · exact .inr embedded

/-! ## The texts alone -/

/-- The texts a table holds in one column. -/
def Records.texts (column : String) (records : Records φ) : Content :=
  fun key => (records key).bind fun record => record.columns column

/-- Rows carry a discriminator throughout the table, or nowhere. -/
def Records.Uniform (labelled : Bool) (records : Records φ) : Prop :=
  ∀ key, key.2.isSome ≠ labelled → records key = none

/-- The action is one of a mapping that embeds into the column and carries a
discriminator like the others. -/
def BatchEvent.Into (column : String) (labelled : Bool) (action : BatchEvent) :
    Prop :=
  action.tm.embedSink = column ∧ action.tm.discriminator.isSome = labelled

section Texts

variable {embed : String → List φ}
variable {column : String}
variable {labelled : Bool}
variable {records : Records φ}
variable {action : BatchEvent}

theorem Records.Uniform.perform
    (uniform : records.Uniform labelled)
    (into : action.Into column labelled) :
    (records.perform embed action).Uniform labelled := by
  intro key mixed
  rw [perform_apply, uniform key mixed]
  unfold BatchEvent.act
  cases action.kind with
  | upsert =>
      dsimp only
      rw [if_neg]
      rintro rfl
      exact mixed into.2
  | delete => simp
  | truncate => simp

/-- In a uniform table the rows in the scope of a mapping are those with its
discriminator. -/
theorem Records.Uniform.scopes_iff
    (uniform : records.Uniform labelled)
    (into : action.Into column labelled)
    {key : String × Option String}
    (present : records key ≠ none) :
    action.tm.Scopes key.2 ↔ key.2 = action.tm.discriminator := by
  have same : key.2.isSome = labelled := by
    by_contra mixed
    exact present (uniform key mixed)
  refine ⟨fun scopes => scopes.elim (fun unscoped => ?_) (fun own => own),
    .inr⟩
  have without := into.2
  rw [unscoped, ← same] at without
  rw [unscoped]
  exact Option.isNone_iff_eq_none.mp (by simpa using without.symm)

/-- The texts of a uniform table change as the coarser view says. -/
theorem Records.texts_perform
    (uniform : records.Uniform labelled)
    (into : action.Into column labelled) :
    (records.perform embed action).texts column =
      (records.texts column).perform action := by
  funext key
  rw [texts, perform_apply]
  unfold BatchEvent.act Content.perform
  cases kind : action.kind with
  | upsert =>
      simp only [Content.upsert, Function.update_apply, texts, eq_comm]
      split
      · simp [Record.assign, TableMapping.assignments, into.1]
      · rfl
  | delete =>
      simp only [Content.remove, Function.update_apply, texts]
      by_cases present : records key = none
      · simp [present]
      · have same : (key.1 = action.idVal ∧ action.tm.Scopes key.2) ↔
            key = action.tm.rowKey action.idVal := by
          rw [uniform.scopes_iff into present]
          obtain ⟨idVal, discriminator⟩ := key
          exact Prod.mk_inj.symm
        simp only [same]
        split <;> rfl
  | truncate =>
      by_cases scopes : action.tm.Scopes key.2
      · rw [if_pos scopes]
        exact (if_pos scopes).symm
      · rw [if_neg scopes]
        exact (if_neg scopes).symm

theorem Records.texts_performAll
    {batch : List BatchEvent}
    (uniform : records.Uniform labelled)
    (into : ∀ action ∈ batch, action.Into column labelled) :
    (records.performAll embed batch).texts column =
      (records.texts column).performAll batch := by
  induction batch generalizing records with
  | nil => rfl
  | cons action batch inductionHypothesis =>
      rw [List.forall_mem_cons] at into
      have next : (records.perform embed action).Uniform labelled :=
        uniform.perform into.1
      have last := inductionHypothesis next into.2
      rw [texts_perform uniform into.1] at last
      exact last

end Texts

/-! ## A sample table -/

/-- A table of articles whose rows share a sink with other tables. -/
def articles : TableMapping :=
  TableMapping.resolveColumns
    { sourceTable := "articles"
      columns := [⟨"id", "source_id", "id"⟩, ⟨"body", "text", "embed"⟩,
        ⟨"topic", "topic", "metadata"⟩]
      hasDiscriminator := true
      discriminatorSink := "kind"
      discriminatorLabel := "article" }

def articleTuple (kind : TupleKind) (id body topic : String) : DecodedRow :=
  { tableName := "articles"
    kind
    columns :=
      [{ name := "id", textValue := id }, { name := "body", textValue := body },
        { name := "topic", textValue := topic }] }

def articleInsert (id body topic : String) : ChangeEvent :=
  { op := .insert
    tableName := "articles"
    newRow := some (articleTuple .insert id body topic) }

def articlesTruncate : ChangeEvent :=
  { op := .truncate, tableName := "articles" }

def sampleEmbed (text : String) : List Nat := [text.length]

end Sink
end Walkrie
