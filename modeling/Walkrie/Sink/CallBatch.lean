import Walkrie.Sink.Plan

/-!
# How an embedding sink applies a batch

The second pass of `call_batch` asks the embedding provider for one vector per
planned upsert and then issues the planned writes in event order.  A write
reports failure by its result, and `call_batch` does not look at that result.
What the provider and the store answer is the environment of one invocation.
-/

namespace Walkrie
namespace Sink

/-- One call of `upsert`, `remove` or `truncate`.  The scalars of a vector are
never inspected. -/
inductive Write (φ : Type)
  | upsert (tm : TableMapping) (idVal embedVal : String)
      (metaVals : List String) (embedding : List φ)
  | remove (tm : TableMapping) (idVal : String)
  | truncate (tm : TableMapping)
  deriving DecidableEq

/-- Writes with the results they returned, in the order they were issued. -/
abbrev WriteLog (φ : Type) := List (Write φ × Bool)

/-- What an invocation leaves behind: the writes it issued, and whether it
returned or threw. -/
structure Applied (φ : Type) where
  writes : WriteLog φ := []
  returned : Bool := true
  deriving DecidableEq

/-- What the outside answers during one invocation; `none` is an exception.
A write may be answered differently each time it is issued. -/
structure Environment (φ : Type) where
  embedBatch : List String → Option (List (List φ))
  write : Nat → Write φ → Option Bool

variable {φ : Type}

/-- Issue one write and go on with the rest. -/
def issue
    (environment : Environment φ)
    (count : Nat)
    (write : Write φ)
    (rest : Applied φ) : Applied φ :=
  match environment.write count write with
  | none => { returned := false }
  | some result => { rest with writes := (write, result) :: rest.writes }

/-- The second loop of `call_batch`, after `count` writes.  The size check
before the loop keeps the vector index in range. -/
def applyBatch (environment : Environment φ) :
    Nat → List BatchEvent → List (List φ) → Applied φ
  | _, [], _ => {}
  | count, action :: batch, vectors =>
      match action.kind with
      | .upsert =>
          let vec := vectors.headD []
          if vec.isEmpty then applyBatch environment count batch vectors.tail
          else
            issue environment count
              (.upsert action.tm action.idVal action.embedVal action.metaVals
                vec)
              (applyBatch environment (count + 1) batch vectors.tail)
      | .delete =>
          issue environment count (.remove action.tm action.idVal)
            (applyBatch environment (count + 1) batch vectors)
      | .truncate =>
          issue environment count (.truncate action.tm)
            (applyBatch environment (count + 1) batch vectors)

/-- `call_batch` of an embedding sink. -/
def callBatch
    (environment : Environment φ)
    (mappings : List TableMapping)
    (events : List ChangeEvent) : Applied φ :=
  let batch := plan mappings events
  if batch.isEmpty then {}
  else
    let texts := textsToEmbed batch
    if texts.isEmpty then applyBatch environment 0 batch []
    else
      match environment.embedBatch texts with
      | none => { returned := false }
      | some vectors =>
          if vectors.length ≠ texts.length then {}
          else applyBatch environment 0 batch vectors

end Sink

namespace PgEmbeddingSink

/-- `PgEmbeddingSink::call_batch`. -/
def callBatch (environment : Sink.Environment φ) :=
  Sink.callBatch environment

end PgEmbeddingSink

namespace QdrantSink

/-- `QdrantSink::call_batch`. -/
def callBatch (environment : Sink.Environment φ) :=
  Sink.callBatch environment

end QdrantSink

namespace MilvusSink

/-- `MilvusSink::call_batch`. -/
def callBatch (environment : Sink.Environment φ) :=
  Sink.callBatch environment

end MilvusSink

namespace Sink

/-! ## Durable batches -/

/-- A write is the one an action plans. -/
def BatchEvent.Plans (action : BatchEvent) : Write φ → Prop
  | .upsert tm idVal embedVal metaVals _ =>
      action.kind = .upsert ∧ tm = action.tm ∧ idVal = action.idVal ∧
        embedVal = action.embedVal ∧ metaVals = action.metaVals
  | .remove tm idVal =>
      action.kind = .delete ∧ tm = action.tm ∧ idVal = action.idVal
  | .truncate tm => action.kind = .truncate ∧ tm = action.tm

/-- The planned write was issued and returned true. -/
def BatchEvent.Fulfilled (action : BatchEvent) (entry : Write φ × Bool) :
    Prop :=
  action.Plans entry.1 ∧ entry.2 = true

/-- Every planned write was issued and returned true. -/
def Durable
    (mappings : List TableMapping)
    (events : List ChangeEvent)
    (writes : WriteLog φ) : Prop :=
  List.Forall₂ BatchEvent.Fulfilled (plan mappings events) writes

/-- The writes of a plan when every upsert gets the vector at its turn. -/
def plannedWrites : List BatchEvent → List (List φ) → List (Write φ)
  | [], _ => []
  | action :: batch, vectors =>
      match action.kind with
      | .upsert =>
          .upsert action.tm action.idVal action.embedVal action.metaVals
            (vectors.headD []) :: plannedWrites batch vectors.tail
      | .delete => .remove action.tm action.idVal :: plannedWrites batch vectors
      | .truncate => .truncate action.tm :: plannedWrites batch vectors

/-- The store accepts a list of writes issued one after the other. -/
def Accepts
    (environment : Environment φ) :
    Nat → List (Write φ) → Prop
  | _, [] => True
  | count, write :: writes =>
      environment.write count write = some true ∧
        Accepts environment (count + 1) writes

/-- The provider answers one non-empty vector per planned text, and the store
accepts every planned write. -/
def Cooperates
    (environment : Environment φ)
    (mappings : List TableMapping)
    (events : List ChangeEvent) : Prop :=
  let batch := plan mappings events
  ∃ vectors : List (List φ),
    (textsToEmbed batch = [] ∧ vectors = [] ∨
      environment.embedBatch (textsToEmbed batch) = some vectors) ∧
    vectors.length = (textsToEmbed batch).length ∧
    (∀ vec ∈ vectors, vec ≠ []) ∧
    Accepts environment 0 (plannedWrites batch vectors)

theorem issue_returned
    {environment : Environment φ}
    {count : Nat}
    {write : Write φ}
    {rest : Applied φ}
    (returned : (issue environment count write rest).returned = true) :
    ∃ result, environment.write count write = some result ∧
      rest.returned = true ∧
      (issue environment count write rest).writes =
        (write, result) :: rest.writes := by
  unfold issue at returned ⊢
  split at returned <;> rename_i answer
  · cases returned
  · exact ⟨_, answer, returned, by simp⟩

/-- At most one write is issued for each action. -/
theorem applyBatch_length
    (environment : Environment φ)
    (count : Nat)
    (batch : List BatchEvent)
    (vectors : List (List φ)) :
    (applyBatch environment count batch vectors).writes.length ≤
      batch.length := by
  have issued : ∀ (count : Nat) (write : Write φ) (rest : Applied φ),
      (issue environment count write rest).writes.length ≤
        rest.writes.length + 1 := by
    intro count write rest
    unfold issue
    split <;> simp
  induction batch generalizing count vectors with
  | nil => simp [applyBatch]
  | cons action batch inductionHypothesis =>
      simp only [applyBatch, List.length_cons]
      split
      · split
        · exact Nat.le_succ_of_le (inductionHypothesis _ _)
        · exact Nat.le_trans (issued _ _ _)
            (Nat.succ_le_succ (inductionHypothesis _ _))
      · exact Nat.le_trans (issued _ _ _)
          (Nat.succ_le_succ (inductionHypothesis _ _))
      · exact Nat.le_trans (issued _ _ _)
          (Nat.succ_le_succ (inductionHypothesis _ _))

/-- The first write of a durable log was accepted, and so was the rest. -/
theorem issue_fulfilled_iff
    {environment : Environment φ}
    {count : Nat}
    {write : Write φ}
    {rest : Applied φ}
    {action : BatchEvent}
    {batch : List BatchEvent}
    (plans : action.Plans write)
    (returned : (issue environment count write rest).returned = true) :
    List.Forall₂ BatchEvent.Fulfilled (action :: batch)
        (issue environment count write rest).writes ↔
      environment.write count write = some true ∧
        List.Forall₂ BatchEvent.Fulfilled batch rest.writes := by
  obtain ⟨result, answer, _, log⟩ := issue_returned returned
  rw [log, List.forall₂_cons, answer, Option.some_inj]
  simp only [BatchEvent.Fulfilled, plans, true_and]

/-- A loop that returned is durable exactly when every vector is non-empty and
the store accepted every planned write. -/
theorem applyBatch_fulfilled_iff
    {environment : Environment φ}
    {count : Nat}
    {batch : List BatchEvent}
    {vectors : List (List φ)}
    (returned : (applyBatch environment count batch vectors).returned = true)
    (lengths : vectors.length = (textsToEmbed batch).length) :
    List.Forall₂ BatchEvent.Fulfilled batch
        (applyBatch environment count batch vectors).writes ↔
      (∀ vec ∈ vectors, vec ≠ []) ∧
        Accepts environment count (plannedWrites batch vectors) := by
  induction batch generalizing count vectors with
  | nil =>
      have unembedded : vectors = [] := by simpa [textsToEmbed] using lengths
      simp [applyBatch, plannedWrites, Accepts, unembedded]
  | cons action batch inductionHypothesis =>
      cases kind : action.kind with
      | upsert =>
          simp only [textsToEmbed, List.filterMap_cons, BatchEvent.text?,
            kind, List.length_cons] at lengths
          cases vectors with
          | nil => cases lengths
          | cons vec vectors =>
              have shorter : vectors.length = (textsToEmbed batch).length :=
                Nat.succ.inj lengths
              simp only [applyBatch, plannedWrites, kind, List.headD_cons,
                List.tail_cons, Accepts, List.forall_mem_cons] at returned ⊢
              cases vec with
              | nil =>
                  -- A skipped action leaves the log too short.
                  simp only [List.isEmpty_nil, if_true, ne_eq,
                    not_true_eq_false, false_and, iff_false]
                  intro fulfilled
                  have short :=
                    applyBatch_length environment count batch vectors
                  have same := fulfilled.length_eq
                  rw [List.length_cons] at same
                  omega
              | cons scalar vec =>
                  simp only [List.isEmpty_cons, Bool.false_eq_true, if_false,
                    ne_eq, reduceCtorEq, not_false_eq_true, true_and]
                    at returned ⊢
                  have plans : action.Plans (.upsert action.tm action.idVal
                      action.embedVal action.metaVals (scalar :: vec)) :=
                    ⟨kind, rfl, rfl, rfl, rfl⟩
                  obtain ⟨_, _, rest, _⟩ := issue_returned returned
                  rw [issue_fulfilled_iff plans returned,
                    inductionHypothesis rest shorter]
                  exact and_left_comm
      | delete =>
          simp only [textsToEmbed, List.filterMap_cons, BatchEvent.text?,
            kind] at lengths
          simp only [applyBatch, plannedWrites, kind, Accepts] at returned ⊢
          have plans : action.Plans
              (.remove action.tm action.idVal : Write φ) := ⟨kind, rfl, rfl⟩
          obtain ⟨_, _, rest, _⟩ := issue_returned returned
          rw [issue_fulfilled_iff plans returned,
            inductionHypothesis rest lengths]
          exact and_left_comm
      | truncate =>
          simp only [textsToEmbed, List.filterMap_cons, BatchEvent.text?,
            kind] at lengths
          simp only [applyBatch, plannedWrites, kind, Accepts] at returned ⊢
          have plans : action.Plans (.truncate action.tm : Write φ) :=
            ⟨kind, rfl⟩
          obtain ⟨_, _, rest, _⟩ := issue_returned returned
          rw [issue_fulfilled_iff plans returned,
            inductionHypothesis rest lengths]
          exact and_left_comm

/-- An invocation that returned is durable exactly when its environment
cooperated. -/
theorem callBatch_durable_iff
    {environment : Environment φ}
    {mappings : List TableMapping}
    {events : List ChangeEvent}
    (returned : (callBatch environment mappings events).returned = true) :
    Durable mappings events (callBatch environment mappings events).writes ↔
      Cooperates environment mappings events := by
  unfold Durable Cooperates
  by_cases planned : plan mappings events = []
  · simp only [callBatch, planned, List.isEmpty_nil, if_true,
      List.Forall₂.nil, true_iff]
    exact ⟨[], .inl ⟨rfl, rfl⟩, rfl, by simp, trivial⟩
  simp only [callBatch, List.isEmpty_iff, planned, if_false] at returned ⊢
  by_cases texts : textsToEmbed (plan mappings events) = []
  · simp only [texts, if_true, true_and, List.length_nil] at returned ⊢
    rw [applyBatch_fulfilled_iff returned (by simp [texts])]
    constructor
    · rintro ⟨filled, accepted⟩
      exact ⟨[], .inl rfl, rfl, filled, accepted⟩
    · rintro ⟨vectors, _, empty, filled, accepted⟩
      rw [List.eq_nil_of_length_eq_zero empty] at filled accepted
      exact ⟨filled, accepted⟩
  simp only [texts, if_false, false_and, false_or] at returned ⊢
  cases answer : environment.embedBatch
      (textsToEmbed (plan mappings events)) with
  | none => simp [answer] at returned
  | some vectors =>
      simp only [answer, ne_eq, Option.some_inj, exists_eq_left'] at returned ⊢
      by_cases lengths :
          vectors.length = (textsToEmbed (plan mappings events)).length
      · simp only [lengths, not_true_eq_false, if_false, true_and]
          at returned ⊢
        exact applyBatch_fulfilled_iff returned lengths
      · -- The wrong number of vectors: the batch is dropped without a write.
        simp only [lengths, not_false_eq_true, if_true, false_and, iff_false]
        intro fulfilled
        exact planned (List.forall₂_nil_right_iff.mp fulfilled)

end Sink
end Walkrie
