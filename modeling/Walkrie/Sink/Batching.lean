import Walkrie.Sink.Records

/-!
# Batches and single events

An embedding sink plans all events of a batch, embeds their texts together and
then makes its calls, where `call` does the same for one event.  The vectors
are found again by a running index, which has to stay aligned with the
upserts across dropped events, deletes, truncates and empty vectors.  It does,
so a batch makes the calls its events make one after the other.
-/

namespace Walkrie

namespace Sink

variable {φ : Type}

/-- `call` of an embedding sink. -/
def call
    (environment : Environment φ)
    (mappings : List TableMapping)
    (event : ChangeEvent) : Applied φ :=
  callBatch environment mappings [event]

end Sink

namespace PgEmbeddingSink

/-- `PgEmbeddingSink::call`. -/
def call {φ : Type} (environment : Sink.Environment φ) :=
  Sink.call environment

end PgEmbeddingSink

namespace QdrantSink

/-- `QdrantSink::call`. -/
def call {φ : Type} (environment : Sink.Environment φ) :=
  Sink.call environment

end QdrantSink

namespace MilvusSink

/-- `MilvusSink::call`. -/
def call {φ : Type} (environment : Sink.Environment φ) :=
  Sink.call environment

end MilvusSink

namespace Sink

variable {φ : Type}

/-- The calls of `upsert`, `remove` and `truncate` an invocation makes, with
all their arguments. -/
def Applied.calls (applied : Applied φ) : List (Write φ) :=
  applied.writes.map Prod.fst

/-- The provider embeds text by text, a failed text as the empty vector.  A
write may succeed or fail. -/
structure Provides (embed : String → List φ) (environment : Environment φ) :
    Prop where
  embeds : ∀ texts, environment.embedBatch texts = some (texts.map embed)
  answers : ∀ count write, environment.write count write ≠ none

/-- The call an action leads to.  An upsert without a vector is dropped. -/
def BatchEvent.call? (embed : String → List φ) (action : BatchEvent) :
    Option (Write φ) :=
  if action.kind = .upsert ∧ embed action.embedVal = [] then none
  else some (action.write embed)

/-! ## The calls of a batch -/

section Calls

variable {embed : String → List φ}
variable {environment : Environment φ}

theorem Provides.calls_issue
    (provides : Provides embed environment)
    (count : Nat)
    (write : Write φ)
    (rest : Applied φ) :
    (issue environment count write rest).calls = write :: rest.calls ∧
      (issue environment count write rest).returned = rest.returned := by
  unfold issue
  cases answer : environment.write count write with
  | none => exact absurd answer (provides.answers count write)
  | some result => exact ⟨rfl, rfl⟩

/-- The vector index stays aligned with the upserts. -/
theorem Provides.calls_applyBatch
    (provides : Provides embed environment)
    (count : Nat)
    (batch : List BatchEvent) :
    (applyBatch environment count batch
        ((textsToEmbed batch).map embed)).calls =
      batch.filterMap (BatchEvent.call? embed) ∧
    (applyBatch environment count batch
        ((textsToEmbed batch).map embed)).returned = true := by
  induction batch generalizing count with
  | nil => exact ⟨rfl, rfl⟩
  | cons action batch inductionHypothesis =>
      by_cases dropped : action.kind = .upsert ∧ embed action.embedVal = []
      · -- The empty vector is consumed together with its action.
        have skipped : applyBatch environment count (action :: batch)
            ((textsToEmbed (action :: batch)).map embed) =
              applyBatch environment count batch
                ((textsToEmbed batch).map embed) := by
          simp [applyBatch, textsToEmbed, BatchEvent.text?, dropped]
        have uncalled : action.call? embed = none := if_pos dropped
        rw [skipped, List.filterMap_cons_none uncalled]
        exact inductionHypothesis count
      · have issued : applyBatch environment count (action :: batch)
            ((textsToEmbed (action :: batch)).map embed) =
              issue environment count (action.write embed)
                (applyBatch environment (count + 1) batch
                  ((textsToEmbed batch).map embed)) := by
          cases kind : action.kind with
          | upsert =>
              have filled : embed action.embedVal ≠ [] :=
                fun empty => dropped ⟨kind, empty⟩
              simp [applyBatch, textsToEmbed, BatchEvent.text?,
                BatchEvent.write, kind, filled]
          | delete =>
              simp [applyBatch, textsToEmbed, BatchEvent.text?,
                BatchEvent.write, kind]
          | truncate =>
              simp [applyBatch, textsToEmbed, BatchEvent.text?,
                BatchEvent.write, kind]
        have called : action.call? embed = some (action.write embed) :=
          if_neg dropped
        obtain ⟨calls, returned⟩ := inductionHypothesis (count + 1)
        obtain ⟨first, rest⟩ := provides.calls_issue count
          (action.write embed) (applyBatch environment (count + 1) batch
            ((textsToEmbed batch).map embed))
        rw [issued, List.filterMap_cons_some called, first, rest, calls]
        exact ⟨rfl, returned⟩

theorem Provides.calls_callBatch
    (provides : Provides embed environment)
    (mappings : List TableMapping)
    (events : List ChangeEvent) :
    (callBatch environment mappings events).calls =
        (plan mappings events).filterMap (BatchEvent.call? embed) ∧
      (callBatch environment mappings events).returned = true := by
  have applied := provides.calls_applyBatch 0 (plan mappings events)
  unfold callBatch
  by_cases planned : plan mappings events = []
  · rw [planned]
    exact ⟨rfl, rfl⟩
  · by_cases texts : textsToEmbed (plan mappings events) = []
    · rw [texts] at applied
      simpa [planned, texts] using applied
    · simpa [planned, texts, provides.embeds] using applied

/-- The calls an event leads to do not depend on the batch it comes in. -/
theorem Provides.calls_callBatch_eq_flatMap
    (provides : Provides embed environment)
    (mappings : List TableMapping)
    (events : List ChangeEvent) :
    (callBatch environment mappings events).calls =
      events.flatMap fun event =>
        ((planEvent mappings event).bind
          (BatchEvent.call? embed)).toList := by
  rw [(provides.calls_callBatch mappings events).1, plan,
    List.filterMap_filterMap]
  exact List.filterMap_eq_flatMap_toList _ _

theorem Provides.calls_call
    (provides : Provides embed environment)
    (mappings : List TableMapping)
    (event : ChangeEvent) :
    (call environment mappings event).calls =
      ((planEvent mappings event).bind (BatchEvent.call? embed)).toList := by
  rw [call, provides.calls_callBatch_eq_flatMap, List.flatMap_singleton]

end Calls

/-! ## Batches against single events -/

/-- A sink returns from a batch after the calls its events make one by one, and
dividing a batch in two makes no difference.  The stores that answer the
single events need not answer as the store of the batch does. -/
structure OneByOne
    (embed : String → List φ)
    (mappings : List TableMapping)
    (callBatch : Environment φ → List TableMapping → List ChangeEvent →
      Applied φ)
    (call : Environment φ → List TableMapping → ChangeEvent → Applied φ) :
    Prop where
  returns : ∀ environment events, Provides embed environment →
    (callBatch environment mappings events).returned = true
  single : ∀ environment, ∀ events : List (Environment φ × ChangeEvent),
    Provides embed environment → (∀ event ∈ events, Provides embed event.1) →
      (callBatch environment mappings (events.map Prod.snd)).calls =
        events.flatMap fun event => (call event.1 mappings event.2).calls
  append : ∀ environment first second events later,
    Provides embed environment → Provides embed first →
    Provides embed second →
      (callBatch environment mappings (events ++ later)).calls =
        (callBatch first mappings events).calls ++
          (callBatch second mappings later).calls

theorem oneByOne
    (embed : String → List φ)
    (mappings : List TableMapping) :
    OneByOne embed mappings callBatch call where
  returns := by
    intro environment events provides
    exact (provides.calls_callBatch mappings events).2
  single := by
    intro environment events provides single
    rw [provides.calls_callBatch_eq_flatMap, List.flatMap_map]
    refine List.flatMap_congr fun event member => ?_
    exact ((single event member).calls_call mappings event.2).symm
  append := by
    intro environment first second events later provides former latter
    rw [provides.calls_callBatch_eq_flatMap,
      former.calls_callBatch_eq_flatMap, latter.calls_callBatch_eq_flatMap,
      List.flatMap_append]

/-- The three embedding sinks process a batch as its events one by one, and
make the same calls for the same mappings. -/
theorem sinks_oneByOne
    (embed : String → List φ)
    (mappings : List TableMapping) :
    OneByOne embed mappings PgEmbeddingSink.callBatch PgEmbeddingSink.call ∧
      OneByOne embed mappings QdrantSink.callBatch QdrantSink.call ∧
      OneByOne embed mappings MilvusSink.callBatch MilvusSink.call ∧
      ∀ pg qdrant milvus : Environment φ,
        Provides embed pg → Provides embed qdrant → Provides embed milvus →
        ∀ events,
          (PgEmbeddingSink.callBatch pg mappings events).calls =
              (QdrantSink.callBatch qdrant mappings events).calls ∧
            (QdrantSink.callBatch qdrant mappings events).calls =
              (MilvusSink.callBatch milvus mappings events).calls := by
  refine ⟨oneByOne embed mappings, oneByOne embed mappings,
    oneByOne embed mappings, ?_⟩
  intro pg qdrant milvus first second third events
  have calls : ∀ {environment : Environment φ}, Provides embed environment →
      (callBatch environment mappings events).calls =
        (plan mappings events).filterMap (BatchEvent.call? embed) :=
    fun provides => (provides.calls_callBatch mappings events).1
  exact ⟨(calls first).trans (calls second).symm,
    (calls second).trans (calls third).symm⟩

-- Every function of the text is provided in some environment.
example (embed : String → List φ) : Provides embed (steady embed) where
  embeds := fun _ => rfl
  answers := by
    intro count write failed
    cases failed

end Sink
end Walkrie
