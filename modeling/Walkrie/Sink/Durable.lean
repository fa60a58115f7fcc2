import Walkrie.Dispatcher.Accept
import Walkrie.Sink.CallBatch

/-!
# What a confirmation says about an embedding sink

The dispatcher is run with the three embedding sinks, whose `call_batch`
ignores what its writes return.  A confirmed batch has therefore been written
durably exactly when the provider and the store cooperated in the invocation
that returned; nothing in the program turns a failed write into a retry.
-/

namespace Walkrie
namespace Sink

open Dispatcher

/-- A sink of the dispatcher: one of the embedding sinks with its mappings, or
any other. -/
inductive Target
  | pgEmbedding (mappings : List TableMapping)
  | qdrant (mappings : List TableMapping)
  | milvus (mappings : List TableMapping)
  | other (name : String)
  deriving DecidableEq

/-- Report of an invocation that returned: what it was answered and what it
wrote. -/
structure Invocation (φ : Type) where
  environment : Environment φ
  writes : WriteLog φ

variable {φ : Type}

namespace Target

/-- The mappings of an embedding sink. -/
def mappings? : Target → Option (List TableMapping)
  | .pgEmbedding mappings | .qdrant mappings | .milvus mappings =>
      some mappings
  | .other _ => none

/-- `call_batch` of an embedding sink. -/
def callBatch
    (environment : Environment φ)
    (events : List ChangeEvent) : Target → Option (Applied φ)
  | .pgEmbedding mappings =>
      some (PgEmbeddingSink.callBatch environment mappings events)
  | .qdrant mappings =>
      some (QdrantSink.callBatch environment mappings events)
  | .milvus mappings =>
      some (MilvusSink.callBatch environment mappings events)
  | .other _ => none

theorem callBatch_eq
    {target : Target}
    {mappings : List TableMapping}
    (embedding : target.mappings? = some mappings)
    (environment : Environment φ)
    (events : List ChangeEvent) :
    target.callBatch environment events =
      some (Sink.callBatch environment mappings events) := by
  cases target <;> cases embedding <;> rfl

/-- Outcomes `call_batch` can have for some answers of the outside. -/
def Answers (target : Target) (events : List ChangeEvent) :
    Attempt (Invocation φ) → Prop
  | .returned invocation =>
      ∀ applied ∈ target.callBatch invocation.environment events,
        applied.returned = true ∧ applied.writes = invocation.writes
  | .threw _ =>
      target.mappings?.isSome = true →
        ∃ environment : Environment φ,
          ∃ applied ∈ target.callBatch environment events,
            applied.returned = false

end Target

/-- Attempts end the way `call_batch` of the sink at hand ends. -/
def Genuine (state : State Target (Invocation φ)) :
    Label Target (Invocation φ) → Prop
  | .attempt outcome =>
      ∀ caller batch position backoff handle,
        state.phase = .dispatching caller batch position backoff →
        batch.sinks[position]? = some handle →
          handle.sink.Answers batch.events outcome
  | _ => True

/-- Every invocation on record is one of the sink it is recorded for. -/
def Recorded (state : State Target (Invocation φ)) : Prop :=
  ∀ index batch outcome handle,
    Output.called index batch outcome ∈ state.trace →
    batch.sinks[index]? = some handle →
      handle.sink.Answers batch.events outcome

theorem step_recorded
    {settings : Settings}
    {state next : State Target (Invocation φ)}
    {label : Label Target (Invocation φ)}
    (recorded : Recorded state)
    (genuine : Genuine state label)
    (taken : step settings state label = some next) :
    Recorded next := by
  obtain ⟨outputs, trace, attributed, _⟩ := step_observed taken
  intro index batch outcome handle called present
  rw [trace] at called
  rcases List.mem_append.mp called with earlier | new
  · exact recorded index batch outcome handle earlier present
  · obtain ⟨rfl, caller, backoff, phase⟩ := attributed _ new
    exact genuine caller batch index backoff handle phase present

/-! ## Confirmed batches -/

/-- `on_confirmed` is being called for the batch. -/
def Confirming (state : State Target (Invocation φ)) (batch : Batch Target) :
    Prop :=
  ∃ caller pending, state.phase = .notifying caller batch pending

/-- For every required embedding sink of the batch being confirmed, there is an
invocation that returned, and in it every planned write was issued and
returned true. -/
def ConfirmedDurably (state : State Target (Invocation φ)) : Prop :=
  ∀ batch, Confirming state batch →
    ∀ index handle mappings,
      batch.sinks[index]? = some handle → handle.required = true →
      handle.sink.mappings? = some mappings →
        (∃ invocation,
          Output.called index batch (.returned invocation) ∈ state.trace) ∧
        ∀ invocation,
          Output.called index batch (.returned invocation) ∈ state.trace →
            Durable mappings batch.events invocation.writes

/-- For every required embedding sink of the batch being confirmed, the
provider answered one non-empty vector per planned text and the store accepted
every planned write, in the invocation that returned. -/
def ConfirmedCooperatively (state : State Target (Invocation φ)) : Prop :=
  ∀ batch, Confirming state batch →
    ∀ index handle mappings,
      batch.sinks[index]? = some handle → handle.required = true →
      handle.sink.mappings? = some mappings →
        ∀ invocation,
          Output.called index batch (.returned invocation) ∈ state.trace →
            Cooperates invocation.environment mappings batch.events

/-- A recorded invocation is durable exactly when its environment
cooperated. -/
theorem Recorded.durable_iff
    {state : State Target (Invocation φ)}
    (recorded : Recorded state)
    {index : Nat}
    {batch : Batch Target}
    {handle : SinkHandle Target}
    {mappings : List TableMapping}
    {invocation : Invocation φ}
    (present : batch.sinks[index]? = some handle)
    (embedding : handle.sink.mappings? = some mappings)
    (called :
      Output.called index batch (.returned invocation) ∈ state.trace) :
    Durable mappings batch.events invocation.writes ↔
      Cooperates invocation.environment mappings batch.events := by
  have answers := recorded index batch _ handle called present
  obtain ⟨returned, writes⟩ :=
    answers _ (Target.callBatch_eq embedding _ _)
  rw [← writes]
  exact callBatch_durable_iff returned

/-- A confirmation means durable writes exactly when the outside cooperated in
the invocations that returned. -/
theorem confirmedDurably_iff
    (settings : Settings)
    (state : State Target (Invocation φ))
    (reachable :
      Transition.Reachable (step settings) Genuine {} state) :
    ConfirmedDurably state ↔ ConfirmedCooperatively state := by
  have recorded : Recorded state :=
    reachable.invariant Recorded (fun _ _ _ _ called => by cases called)
      fun _ _ _ recorded genuine taken => step_recorded recorded genuine taken
  have accepted := reachable_accepted reachable
  constructor
  · intro durable batch confirming index handle mappings present required
      embedding invocation called
    exact (recorded.durable_iff present embedding called).mp
      ((durable batch confirming index handle mappings present required
        embedding).2 invocation called)
  · intro cooperative batch confirming index handle mappings present required
      embedding
    refine ⟨?_, fun invocation called => ?_⟩
    · obtain ⟨caller, pending, phase⟩ := confirming
      simp only [Accepted, phase] at accepted
      exact accepted index (List.getElem?_eq_some_iff.mp present).1 handle
        present required
    · exact (recorded.durable_iff present embedding called).mpr
        (cooperative batch confirming index handle mappings present required
          embedding invocation called)

/-! ## Runs -/

/-- Evaluable form of `Genuine` for runs without exceptions. -/
def replays [DecidableEq φ] (state : State Target (Invocation φ)) :
    Label Target (Invocation φ) → Bool
  | .attempt (.returned invocation) =>
      match state.phase with
      | .dispatching _ batch position _ =>
          batch.sinks[position]?.all fun handle =>
            (handle.sink.callBatch invocation.environment batch.events).all
              fun applied => applied.returned = true ∧
                applied.writes = invocation.writes
      | _ => false
  | .attempt (.threw _) => false
  | _ => true

theorem genuine_of_replays
    [DecidableEq φ]
    {state : State Target (Invocation φ)}
    {label : Label Target (Invocation φ)}
    (replayed : replays state label = true) :
    Genuine state label := by
  cases label with
  | attempt outcome =>
      cases outcome with
      | threw elapsed => cases replayed
      | returned invocation =>
          intro caller batch position backoff handle phase present applied
            called
          simp only [replays, phase, present, Option.all_some] at replayed
          rw [Option.mem_def.mp called] at replayed
          simpa using replayed
  | _ => trivial

/-- A mapping of `docs` with an id and an embed column. -/
def docsMapping : TableMapping :=
  TableMapping.resolveColumns {
    sourceTable := "docs"
    columns := [⟨"id", "id", "id"⟩, ⟨"body", "body", "embed"⟩] }

/-- A row of `docs`. -/
def docsRow (kind : TupleKind) (id body : String) : DecodedRow where
  tableName := "docs"
  kind := kind
  columns := [{ name := "id", textValue := id },
    { name := "body", textValue := body }]

/-- The insert of one row into `docs`. -/
def docsInsert (id body : String) : ChangeEvent where
  op := .insert
  tableName := "docs"
  newRow := some (docsRow .insert id body)
  commitLsn := 10

/-- Every text gets a vector and every write the same result. -/
def uniformEnvironment (result : Bool) : Environment Nat where
  embedBatch := fun texts => some (texts.map fun _ => [0])
  write := fun _ _ => some result

/-- The write planned for the sample insert. -/
def sampleWrite : Write Nat :=
  .upsert docsMapping "1" "text" [] [0]

/-- A required pgvector sink. -/
def sampleSinks : List (SinkHandle Target) :=
  [⟨.pgEmbedding [docsMapping], true⟩]

/-- The sample insert, queued. -/
def sampleEventJob : EventJob Target where
  ev := docsInsert "1" "text"
  sourceId := 7
  sinks := sampleSinks

/-- The batch the sample insert is dispatched in. -/
def sampleBatch : Batch Target :=
  ⟨0, [sampleEventJob], sampleSinks⟩

/-- One insert is dispatched to the sink, whose write returns the given
result. -/
def insertRun (result : Bool) : List (Label Target (Invocation Nat)) :=
  [.post sampleEventJob, .checkRunning, .wait true 0, .collect 0 false,
    .attempt (.returned {
      environment := uniformEnvironment result
      writes := [(sampleWrite, result)] })]

/-- The invocations of `insertRun`, as far as they can be observed. -/
def Invocation.Observes (result : Bool) (invocation : Invocation Nat) : Prop :=
  invocation.environment.embedBatch ["text"] = some [[0]] ∧
    invocation.environment.write 0 sampleWrite = some result ∧
    invocation.writes = [(sampleWrite, result)]

instance (result : Bool) (invocation : Invocation Nat) :
    Decidable (invocation.Observes result) :=
  inferInstanceAs (Decidable (_ ∧ _ ∧ _))

/-- The run ends with `on_confirmed` being called, whatever the write
returned. -/
theorem exists_confirming_insertRun (result : Bool) :
    ∃ state : State Target (Invocation Nat),
      Transition.Reachable (step {}) Genuine {} state ∧
      state.phase = .notifying .processJobs sampleBatch [(7, 10)] ∧
      ∀ index batch invocation,
        Output.called index batch (.returned invocation) ∈ state.trace →
          invocation.Observes result := by
  let observed : Output Target (Invocation Nat) → Bool
    | .called _ _ (.returned invocation) => invocation.Observes result
    | _ => true
  obtain ⟨state, reachable, final⟩ := Transition.exists_reachable_of_guarded
    (fun state label => replays state label = true) (insertRun result)
    (show (Transition.run (Transition.guarded (step {}) fun state label =>
        replays state label = true) {} (insertRun result)).any
      (fun state => state.phase =
        .notifying .processJobs sampleBatch [(7, 10)] ∧
          state.trace.all observed) = true by cases result <;> decide)
  obtain ⟨phase, trace⟩ := of_decide_eq_true final
  refine ⟨state, reachable.mono fun _ _ => genuine_of_replays, phase, ?_⟩
  intro index batch invocation called
  exact of_decide_eq_true (List.all_eq_true.mp trace _ called)

/-- With an accepted write the confirmation means what it should. -/
theorem confirmedDurably_insertRun :
    ∃ state : State Target (Invocation Nat),
      Transition.Reachable (step {}) Genuine {} state ∧
      Confirming state sampleBatch ∧
      ConfirmedDurably state := by
  obtain ⟨state, reachable, phase, observed⟩ :=
    exists_confirming_insertRun true
  refine ⟨state, reachable, ⟨_, _, phase⟩,
    (confirmedDurably_iff {} state reachable).mpr ?_⟩
  rintro batch ⟨caller, pending, confirming⟩ index handle mappings present _
    embedding invocation called
  obtain ⟨answer, accepted, _⟩ := observed index batch invocation called
  cases phase.symm.trans confirming
  have first : index = 0 := by
    have bound := (List.getElem?_eq_some_iff.mp present).1
    simpa [sampleBatch, sampleSinks] using bound
  subst first
  cases present
  cases embedding
  exact ⟨[[0]], .inr answer, rfl, by simp, accepted, trivial⟩

/-- A write that returns false is confirmed like any other. -/
theorem not_confirmedDurably_insertRun :
    ¬∀ (settings : Settings) (state : State Target (Invocation Nat)),
      Transition.Reachable (step settings) Genuine {} state →
      ConfirmedDurably state := by
  intro claim
  obtain ⟨state, reachable, phase, observed⟩ :=
    exists_confirming_insertRun false
  obtain ⟨⟨invocation, called⟩, durable⟩ := claim {} state reachable
    sampleBatch ⟨_, _, phase⟩ 0 _ _ rfl rfl rfl
  have fulfilled := durable invocation called
  rw [(observed 0 sampleBatch invocation called).2.2] at fulfilled
  cases fulfilled with
  | cons written _ => cases written.2

end Sink
end Walkrie
