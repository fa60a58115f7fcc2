import Walkrie.Sink.CallBatch

/-!
# What the writes leave in a sink

A sink row is identified by its source id together with the discriminator of
its mapping.  Of its columns only the embedded text is kept here.  A batch
whose planned writes all succeed changes the sink as its plan says.
-/

namespace Walkrie

namespace TableMapping

/-- Label that tells the rows of this mapping from those of others. -/
def discriminator (tm : TableMapping) : Option String :=
  if tm.hasDiscriminator then some tm.discriminatorLabel else none

/-- The conflict target of an upsert: id, and discriminator if configured. -/
def rowKey (tm : TableMapping) (idVal : String) : String × Option String :=
  (idVal, tm.discriminator)

end TableMapping

namespace Sink

/-- Mappings that write rows with the same discriminator map the same source
table. -/
def Separate (mappings : List TableMapping) : Prop :=
  ∀ tm ∈ mappings, ∀ other ∈ mappings,
    tm.discriminator = other.discriminator →
      tm.sourceTable = other.sourceTable

instance (mappings : List TableMapping) : Decidable (Separate mappings) :=
  inferInstanceAs (Decidable (∀ tm ∈ mappings, _))

/-- The text of every row of a sink. -/
abbrev Content := String × Option String → Option String

namespace Content

def upsert (content : Content) (tm : TableMapping) (idVal embedVal : String) :
    Content :=
  Function.update content (tm.rowKey idVal) (some embedVal)

def remove (content : Content) (tm : TableMapping) (idVal : String) :
    Content :=
  Function.update content (tm.rowKey idVal) none

/-- Without a discriminator every row of the sink goes. -/
def truncate (content : Content) (tm : TableMapping) : Content :=
  fun key =>
    if tm.discriminator = none ∨ key.2 = tm.discriminator then none
    else content key

/-- Effect of a successful write. -/
def write {φ : Type} (content : Content) : Write φ → Content
  | .upsert tm idVal embedVal _ _ => content.upsert tm idVal embedVal
  | .remove tm idVal => content.remove tm idVal
  | .truncate tm => content.truncate tm

/-- Effect of a planned action whose write succeeds. -/
def perform (content : Content) (action : BatchEvent) : Content :=
  match action.kind with
  | .upsert => content.upsert action.tm action.idVal action.embedVal
  | .delete => content.remove action.tm action.idVal
  | .truncate => content.truncate action.tm

/-- Effect of a list of planned actions. -/
def performAll (content : Content) (batch : List BatchEvent) : Content :=
  batch.foldl perform content

/-- A durable batch changes the sink as its plan says. -/
theorem write_durable
    {φ : Type}
    {mappings : List TableMapping}
    {events : List ChangeEvent}
    {writes : WriteLog φ}
    (durable : Durable mappings events writes)
    (content : Content) :
    (writes.map Prod.fst).foldl write content =
      content.performAll (plan mappings events) := by
  unfold Durable at durable
  unfold performAll
  generalize plan mappings events = batch at durable ⊢
  induction durable generalizing content with
  | nil => rfl
  | @cons action entry batch writes fulfilled _ inductionHypothesis =>
      have same : content.write entry.1 = content.perform action := by
        obtain ⟨plans, _⟩ := fulfilled
        obtain ⟨issued, result⟩ := entry
        cases issued with
        | upsert tm idVal embedVal metaVals embedding =>
            obtain ⟨kind, rfl, rfl, rfl, rfl⟩ := plans
            simp [write, perform, kind]
        | remove tm idVal =>
            obtain ⟨kind, rfl, rfl⟩ := plans
            simp [write, perform, kind]
        | truncate tm =>
            obtain ⟨kind, rfl⟩ := plans
            simp [write, perform, kind]
      simp only [List.map_cons, List.foldl_cons, same, inductionHypothesis]

/-- An invocation whose provider and store cooperate changes the sink as
planned. -/
theorem write_callBatch
    {φ : Type}
    {environment : Environment φ}
    {mappings : List TableMapping}
    {events : List ChangeEvent}
    (returned : (callBatch environment mappings events).returned = true)
    (cooperates : Cooperates environment mappings events)
    (content : Content) :
    ((callBatch environment mappings events).writes.map Prod.fst).foldl write
        content =
      content.performAll (plan mappings events) :=
  write_durable ((callBatch_durable_iff returned).mpr cooperates) content

end Content

/-! ## The rows an action concerns -/

/-- The action may change the row with this key. -/
def BatchEvent.Touches (action : BatchEvent) (key : String × Option String) :
    Prop :=
  match action.kind with
  | .upsert | .delete => action.tm.rowKey action.idVal = key
  | .truncate =>
      action.tm.discriminator = none ∨ key.2 = action.tm.discriminator

instance (action : BatchEvent) (key : String × Option String) :
    Decidable (action.Touches key) := by
  unfold BatchEvent.Touches
  split <;> infer_instance

namespace Content

variable {key : String × Option String}

theorem perform_of_not_touches
    {action : BatchEvent}
    (untouched : ¬action.Touches key)
    (content : Content) :
    content.perform action key = content key := by
  unfold BatchEvent.Touches at untouched
  unfold perform
  cases kind : action.kind <;> simp only [kind] at untouched ⊢
  · exact Function.update_of_ne (Ne.symm untouched) _ _
  · exact Function.update_of_ne (Ne.symm untouched) _ _
  · exact if_neg untouched

theorem performAll_of_not_touches
    {batch : List BatchEvent}
    (untouched : ∀ action ∈ batch, ¬action.Touches key)
    (content : Content) :
    content.performAll batch key = content key := by
  unfold performAll
  induction batch generalizing content with
  | nil => rfl
  | cons action batch inductionHypothesis =>
      rw [List.forall_mem_cons] at untouched
      rw [List.foldl_cons, inductionHypothesis untouched.2,
        perform_of_not_touches untouched.1]

/-- The text of a row afterwards depends on its text before only. -/
theorem performAll_congr
    {content other : Content}
    (same : content key = other key)
    (batch : List BatchEvent) :
    content.performAll batch key = other.performAll batch key := by
  unfold performAll
  induction batch generalizing content other with
  | nil => exact same
  | cons action batch inductionHypothesis =>
      refine inductionHypothesis ?_
      unfold perform upsert remove truncate
      cases action.kind <;> simp only [Function.update_apply, same]

theorem performAll_append
    (content : Content)
    (batch later : List BatchEvent) :
    content.performAll (batch ++ later) =
      (content.performAll batch).performAll later :=
  List.foldl_append

end Content

/-- Just one action of the batch may change the row, and it gives it the
text. -/
def WritesOnce (key : String × Option String) (text : String)
    (batch : List BatchEvent) : Prop :=
  ∃ before action after, batch = before ++ action :: after ∧
    action.Touches key ∧
    (∀ content : Content, content.perform action key = some text) ∧
    (∀ other ∈ before, ¬other.Touches key) ∧
    ∀ other ∈ after, ¬other.Touches key

section WritesOnce

variable {key : String × Option String}
variable {text : String}
variable {batch : List BatchEvent}

theorem WritesOnce.performAll
    (once : WritesOnce key text batch)
    (content : Content) :
    content.performAll batch key = some text := by
  obtain ⟨before, action, after, rfl, _, performs, _, later⟩ := once
  rw [Content.performAll_append]
  exact (Content.performAll_of_not_touches later _).trans (performs _)

/-- The first action leaves the row to the others, or writes it. -/
theorem WritesOnce.cons
    {action : BatchEvent}
    (once : WritesOnce key text (action :: batch)) :
    ¬action.Touches key ∧ WritesOnce key text batch ∨
      action.Touches key ∧
        (∀ content : Content, content.perform action key = some text) ∧
        ∀ other ∈ batch, ¬other.Touches key := by
  obtain ⟨before, writer, after, split, touches, performs, earlier, later⟩ :=
    once
  cases before with
  | nil =>
      cases split
      exact .inr ⟨touches, performs, later⟩
  | cons first before =>
      cases split
      rw [List.forall_mem_cons] at earlier
      exact .inl ⟨earlier.1, before, writer, after, rfl, touches, performs,
        earlier.2, later⟩

theorem WritesOnce.append
    {extra : List BatchEvent}
    (once : WritesOnce key text batch)
    (untouched : ∀ action ∈ extra, ¬action.Touches key) :
    WritesOnce key text (batch ++ extra) := by
  obtain ⟨before, action, after, rfl, touches, performs, earlier, later⟩ :=
    once
  refine ⟨before, action, after ++ extra, by simp, touches, performs, earlier,
    ?_⟩
  exact List.forall_mem_append.mpr ⟨later, untouched⟩

/-- An action that gives the row a text whatever it was. -/
theorem writesOnce_of_performs
    {planned : Option BatchEvent}
    (untouched : ∀ action ∈ batch, ¬action.Touches key)
    (performs : ∀ content : Content,
      content.performAll planned.toList key = some text) :
    WritesOnce key text (batch ++ planned.toList) := by
  cases planned with
  | none => cases performs fun _ => none
  | some action =>
      refine ⟨batch, action, [], rfl, ?_, performs, untouched, by simp⟩
      by_contra spared
      have impossible := performs fun _ => none
      rw [Option.toList_some, Content.performAll_of_not_touches
        (by simpa using spared)] at impossible
      cases impossible

end WritesOnce

end Sink
end Walkrie
