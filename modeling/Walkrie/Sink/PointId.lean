import Walkrie.Sink.Configuration
import Walkrie.Sink.Content

/-!
# Point ids

Qdrant and Milvus identify a row by one hashed text, in which the label of the
mapping and the source id are joined by a colon, where pgvector has a key of
two columns.  Labels and ids are free text.  The two ways of telling rows
apart agree exactly when no mapping's label and colon begin those of another,
and then such a sink holds what pgvector holds.
-/

namespace Walkrie

namespace Sink

/-- The text that is hashed. -/
def compositeKey (tm : TableMapping) (sourceId : String) : String :=
  if tm.hasDiscriminator then tm.discriminatorLabel ++ ":" ++ sourceId
  else sourceId

end Sink

namespace QdrantSink

/-- `QdrantSink::point_id_for`. -/
def pointIdFor {Id : Type} (uuid5 : String → Id) (tm : TableMapping)
    (sourceId : String) : Id :=
  uuid5 (Sink.compositeKey tm sourceId)

end QdrantSink

namespace MilvusSink

/-- `MilvusSink::composite_key`. -/
def compositeKey (tm : TableMapping) (sourceId : String) : String :=
  Sink.compositeKey tm sourceId

/-- The primary key of a row, with `uuid5_for` or `int64_id_for` as the type
of the key field asks. -/
def primaryKey {Id : Type} (idFor : String → Id) (tm : TableMapping)
    (sourceId : String) : Id :=
  idFor (compositeKey tm sourceId)

end MilvusSink

namespace Sink

variable {Id : Type}

/-- Rows of different mappings, and rows with different ids, get different
keys.  A row without an id is never written. -/
def Distinguishes (mappings : List TableMapping)
    (key : TableMapping → String → Id) : Prop :=
  ∀ (index otherIndex : Nat) (tm other : TableMapping) (id otherId : String),
    mappings[index]? = some tm → mappings[otherIndex]? = some other →
    id ≠ "" → otherId ≠ "" → index ≠ otherIndex ∨ id ≠ otherId →
      key tm id ≠ key other otherId

/-- Two rows have the same key exactly when pgvector's id and discriminator
are the same. -/
def AgreesWithRowKey (mappings : List TableMapping)
    (key : TableMapping → String → Id) : Prop :=
  ∀ tm ∈ mappings, ∀ other ∈ mappings, ∀ id otherId : String,
    id ≠ "" → otherId ≠ "" →
      (key tm id = key other otherId ↔ tm.rowKey id = other.rowKey otherId)

/-- Label and colon, as far as there is a label. -/
def scopeText (tm : TableMapping) : String :=
  match tm.discriminator with
  | none => ""
  | some label => label ++ ":"

/-- No label with its colon begins that of another mapping.  The empty text
begins everything, so a mapping without a label can only stand alone. -/
def Unambiguous (mappings : List TableMapping) : Prop :=
  ∀ tm ∈ mappings, ∀ other ∈ mappings,
    tm.discriminator ≠ other.discriminator →
      ¬(scopeText tm).toList <+: (scopeText other).toList

instance (mappings : List TableMapping) : Decidable (Unambiguous mappings) :=
  inferInstanceAs (Decidable (∀ tm ∈ mappings, _))

section Keys

variable {mappings : List TableMapping}

theorem compositeKey_eq
    (tm : TableMapping)
    (sourceId : String) :
    compositeKey tm sourceId = scopeText tm ++ sourceId := by
  unfold compositeKey scopeText TableMapping.discriminator
  cases tm.hasDiscriminator <;> simp

theorem scopeText_congr
    {tm other : TableMapping}
    (same : tm.discriminator = other.discriminator) :
    scopeText tm = scopeText other := by
  unfold scopeText
  rw [same]

/-- Texts that are the same from the front on begin one another. -/
theorem begins_of_append_eq
    {scope other id otherId : String}
    (same : scope ++ id = other ++ otherId) :
    scope.toList <+: other.toList ∨ other.toList <+: scope.toList := by
  have lists : scope.toList ++ id.toList = other.toList ++ otherId.toList := by
    rw [← String.toList_append, same, String.toList_append]
  refine List.prefix_or_prefix_of_prefix (List.prefix_append _ id.toList) ?_
  rw [lists]
  exact List.prefix_append _ _

/-- If one text begins another, ids can make up for the difference. -/
theorem exists_append_eq_of_begins
    {scope other : String}
    (begins : scope.toList <+: other.toList) :
    ∃ id otherId, id ≠ "" ∧ otherId ≠ "" ∧ scope ++ id = other ++ otherId := by
  obtain ⟨rest, whole⟩ := begins
  have split : other = scope ++ String.ofList rest := by
    rw [← String.toList_inj, String.toList_append, String.toList_ofList, whole]
  refine ⟨String.ofList rest ++ "1", "1", ?_, by decide, ?_⟩
  · intro empty
    have lists := congrArg String.toList empty
    simp at lists
  · rw [split, String.append_assoc]

/-- The joined text identifies a row exactly when it is unambiguous. -/
theorem agreesWithRowKey_compositeKey_iff :
    AgreesWithRowKey mappings compositeKey ↔ Unambiguous mappings := by
  constructor
  · intro agrees tm member other otherMember different begins
    obtain ⟨id, otherId, filled, otherFilled, same⟩ :=
      exists_append_eq_of_begins begins
    rw [← compositeKey_eq, ← compositeKey_eq] at same
    have keys := (agrees tm member other otherMember id otherId filled
      otherFilled).mp same
    exact different (Prod.mk.inj keys).2
  · intro unambiguous tm member other otherMember id otherId _ _
    rw [compositeKey_eq, compositeKey_eq]
    constructor
    · intro same
      have label : tm.discriminator = other.discriminator := by
        by_contra different
        rcases begins_of_append_eq same with begins | begins
        · exact unambiguous tm member other otherMember different begins
        · exact unambiguous other otherMember tm member (Ne.symm different)
            begins
      rw [scopeText_congr label, String.append_right_inj] at same
      rw [TableMapping.rowKey, TableMapping.rowKey, same, label]
    · intro same
      obtain ⟨rfl, label⟩ := Prod.mk.inj same
      rw [scopeText_congr label]

/-- An injective hash changes nothing. -/
theorem agreesWithRowKey_hash_iff
    {key : TableMapping → String → String}
    {hash : String → Id}
    (injective : Function.Injective hash) :
    AgreesWithRowKey mappings (fun tm id => hash (key tm id)) ↔
      AgreesWithRowKey mappings key := by
  unfold AgreesWithRowKey
  simp only [injective.eq_iff]

/-- With a discriminator for each mapping, the rows that pgvector tells apart
are all rows. -/
theorem distinguishes_of_agreesWithRowKey
    {key : TableMapping → String → Id}
    (different : mappings.Pairwise fun tm other =>
      tm.discriminator ≠ other.discriminator)
    (agrees : AgreesWithRowKey mappings key) :
    Distinguishes mappings key := by
  intro index otherIndex tm other id otherId found otherFound filled
    otherFilled apart same
  obtain ⟨bound, rfl⟩ := List.getElem?_eq_some_iff.mp found
  obtain ⟨otherBound, rfl⟩ := List.getElem?_eq_some_iff.mp otherFound
  obtain ⟨ids, labels⟩ := Prod.mk.inj
    ((agrees _ (List.getElem_mem bound) _ (List.getElem_mem otherBound) id
      otherId filled otherFilled).mp same)
  rcases apart with positions | apart
  · have pairs := List.pairwise_iff_getElem.mp different
    rcases Nat.lt_or_gt_of_ne positions with before | after
    · exact pairs index otherIndex bound otherBound before labels
    · exact pairs otherIndex index otherBound bound after labels.symm
  · exact apart ids

/-- Qdrant's and Milvus's ids keep the rows of differently labelled mappings
apart, as pgvector's key does, exactly when the labels are unambiguous. -/
theorem distinguishes_iff
    {PointId PrimaryKey : Type}
    (config : SinkConfiguration)
    (different : config.mappings.Pairwise fun tm other =>
      tm.discriminator ≠ other.discriminator)
    (uuid5 : String → PointId)
    (uuid5Injective : Function.Injective uuid5)
    (idFor : String → PrimaryKey)
    (idForInjective : Function.Injective idFor) :
    (Distinguishes config.mappings (QdrantSink.pointIdFor uuid5) ∧
        AgreesWithRowKey config.mappings (QdrantSink.pointIdFor uuid5) ↔
      Unambiguous config.mappings) ∧
    (Distinguishes config.mappings (MilvusSink.primaryKey idFor) ∧
        AgreesWithRowKey config.mappings (MilvusSink.primaryKey idFor) ↔
      Unambiguous config.mappings) := by
  have hashed : ∀ {Id : Type} {hash : String → Id}, Function.Injective hash →
      (Distinguishes config.mappings
          (fun tm id => hash (compositeKey tm id)) ∧
        AgreesWithRowKey config.mappings
          (fun tm id => hash (compositeKey tm id)) ↔
      Unambiguous config.mappings) := by
    intro Id hash injective
    rw [← agreesWithRowKey_compositeKey_iff,
      ← agreesWithRowKey_hash_iff injective]
    exact ⟨And.right, fun agrees =>
      ⟨distinguishes_of_agreesWithRowKey different agrees, agrees⟩⟩
  exact ⟨hashed uuid5Injective, hashed idForInjective⟩

end Keys

/-! ## Two labelled mappings -/

/-- A block with a label. -/
def labelledBlock (table label : String) : MappingBlock :=
  { sourceTable := table
    discriminatorColumn := "kind"
    discriminatorLabel := label
    columns := [⟨"id", "source_id", "id"⟩, ⟨"body", "text", "embed"⟩] }

def plainConfig : SinkConfiguration :=
  { blocks := [labelledBlock "news" "news", labelledBlock "archive" "old"]
    valid := by decide }

/-- A colon in a label is not rejected. -/
def nestedConfig : SinkConfiguration :=
  { blocks :=
      [labelledBlock "news" "news", labelledBlock "archive" "news:old"]
    valid := by decide }

/-- Plain labels keep rows apart. -/
theorem distinguishes_plainConfig :
    (Distinguishes plainConfig.mappings (QdrantSink.pointIdFor id) ∧
      AgreesWithRowKey plainConfig.mappings (QdrantSink.pointIdFor id)) ∧
    (Distinguishes plainConfig.mappings (MilvusSink.primaryKey id) ∧
      AgreesWithRowKey plainConfig.mappings (MilvusSink.primaryKey id)) := by
  obtain ⟨points, primary⟩ := distinguishes_iff plainConfig (by decide) id
    Function.injective_id id Function.injective_id
  exact ⟨points.mpr (by decide), primary.mpr (by decide)⟩

/-- The news article `old:1` and the archived article `1` have one key. -/
theorem not_distinguishes_nestedConfig :
    ¬∀ (config : SinkConfiguration) (uuid5 : String → String),
      (config.mappings.Pairwise fun tm other =>
        tm.discriminator ≠ other.discriminator) →
      Function.Injective uuid5 →
        Distinguishes config.mappings (QdrantSink.pointIdFor uuid5) ∨
          Distinguishes config.mappings MilvusSink.compositeKey := by
  intro claim
  rcases claim nestedConfig id (by decide) Function.injective_id with
    points | keys
  · exact points 0 1 _ _ "old:1" "1" rfl rfl (by decide) (by decide)
      (.inl (by decide)) (by decide)
  · exact keys 0 1 _ _ "old:1" "1" rfl rfl (by decide) (by decide)
      (.inl (by decide)) (by decide)

/-! ## What such a sink holds -/

/-- A point: the text it embeds, and the label in its payload. -/
structure Point where
  text : String
  discriminator : Option String

/-- The points of a collection, by id. -/
abbrev Points (Id : Type) := Id → Option Point

namespace Points

variable [DecidableEq Id]

/-- Effect of a planned action whose write succeeds.  A truncate deletes by the
label in the payload. -/
def perform (key : TableMapping → String → Id) (points : Points Id)
    (action : BatchEvent) : Points Id :=
  match action.kind with
  | .upsert =>
      Function.update points (key action.tm action.idVal)
        (some ⟨action.embedVal, action.tm.discriminator⟩)
  | .delete => Function.update points (key action.tm action.idVal) none
  | .truncate => fun id =>
      (points id).filter fun point =>
        ¬(action.tm.discriminator = none ∨
          point.discriminator = action.tm.discriminator)

def performAll (key : TableMapping → String → Id) (points : Points Id)
    (batch : List BatchEvent) : Points Id :=
  batch.foldl (perform key) points

/-- Under the id of every row the collection has the text pgvector has under
its key, labelled as the row's mapping says. -/
def Mirrors (mappings : List TableMapping) (key : TableMapping → String → Id)
    (points : Points Id) (content : Content) : Prop :=
  ∀ tm ∈ mappings, ∀ id : String, id ≠ "" →
    points (key tm id) =
      (content (tm.rowKey id)).map fun text => ⟨text, tm.discriminator⟩

/-- An action a sink with these mappings may plan. -/
def Plannable (mappings : List TableMapping) (action : BatchEvent) : Prop :=
  action.tm ∈ mappings ∧ (action.kind = .truncate ∨ action.idVal ≠ "")

variable {mappings : List TableMapping}
variable {key : TableMapping → String → Id}
variable {points : Points Id}
variable {content : Content}

/-- Writing one row of both sinks alike. -/
theorem Mirrors.update
    (agrees : AgreesWithRowKey mappings key)
    (mirrors : Mirrors mappings key points content)
    {tm : TableMapping}
    (member : tm ∈ mappings)
    {id : String}
    (filled : id ≠ "")
    (text : Option String) :
    Mirrors mappings key
      (Function.update points (key tm id)
        (text.map fun text => ⟨text, tm.discriminator⟩))
      (Function.update content (tm.rowKey id) text) := by
  intro other otherMember otherId otherFilled
  have keys := agrees other otherMember tm member otherId id otherFilled filled
  by_cases same : other.rowKey otherId = tm.rowKey id
  · rw [keys.mpr same, same, Function.update_self, Function.update_self]
    rw [(Prod.mk.inj same).2]
  · rw [Function.update_of_ne (mt keys.mp same), Function.update_of_ne same]
    exact mirrors other otherMember otherId otherFilled

/-- Every action has the same effect on both. -/
theorem Mirrors.perform
    (agrees : AgreesWithRowKey mappings key)
    (mirrors : Mirrors mappings key points content)
    {action : BatchEvent}
    (plannable : Plannable mappings action) :
    Mirrors mappings key (points.perform key action)
      (content.perform action) := by
  obtain ⟨member, filled⟩ := plannable
  unfold Points.perform Content.perform
  cases kind : action.kind with
  | upsert =>
      exact mirrors.update agrees member (filled.resolve_left (by simp [kind]))
        (some action.embedVal)
  | delete =>
      exact mirrors.update agrees member (filled.resolve_left (by simp [kind]))
        none
  | truncate =>
      intro other otherMember id otherFilled
      simp only [Content.truncate]
      have label : (other.rowKey id).2 = other.discriminator := rfl
      rw [mirrors other otherMember id otherFilled, label]
      by_cases hit : action.tm.discriminator = none ∨
          other.discriminator = action.tm.discriminator
      · rw [if_pos hit]
        cases content (other.rowKey id) with
        | none => rfl
        | some text =>
            simp only [Option.map_some, Option.filter_some, hit, not_true_eq_false,
              decide_false, Bool.false_eq_true, if_false, Option.map_none]
      · rw [if_neg hit]
        cases content (other.rowKey id) with
        | none => rfl
        | some text =>
            simp only [Option.map_some, Option.filter_some, hit,
              not_false_eq_true, decide_true, if_true]

/-- A sink that is in step with pgvector stays in step through every batch. -/
theorem Mirrors.performAll
    (agrees : AgreesWithRowKey mappings key)
    (mirrors : Mirrors mappings key points content)
    {batch : List BatchEvent}
    (plannable : ∀ action ∈ batch, Plannable mappings action) :
    Mirrors mappings key (points.performAll key batch)
      (content.performAll batch) := by
  unfold Points.performAll Content.performAll
  induction batch generalizing points content with
  | nil => exact mirrors
  | cons action batch inductionHypothesis =>
      rw [List.forall_mem_cons] at plannable
      exact inductionHypothesis (mirrors.perform agrees plannable.1)
        plannable.2

/-- What the first pass plans is by a mapping of the sink and about a row with
an id. -/
theorem plannable_of_plan
    (events : List ChangeEvent) :
    ∀ action ∈ plan mappings events, Plannable mappings action := by
  intro action among
  obtain ⟨event, _, planned⟩ := List.mem_filterMap.mp among
  obtain ⟨found, ways⟩ := planEvent_eq_some_iff.mp planned
  refine ⟨List.mem_of_find?_eq_some found, ?_⟩
  generalize action.tm = tm at ways
  cases ways with
  | upsert op prepared =>
      obtain ⟨_, _, _, named, _, rfl⟩ := prepareUpsert_eq_some_iff.mp prepared
      exact .inr named
  | delete _ _ named => exact .inr named
  | truncate => exact .inl rfl

/-- With unambiguous labels and an injective hash, every batch whose writes
succeed leaves such a sink with what pgvector has. -/
theorem Mirrors.plan
    {hash : String → Id}
    (unambiguous : Unambiguous mappings)
    (injective : Function.Injective hash)
    (events : List ChangeEvent)
    (mirrors :
      Mirrors mappings (fun tm id => hash (compositeKey tm id)) points
        content) :
    Mirrors mappings (fun tm id => hash (compositeKey tm id))
      (points.performAll (fun tm id => hash (compositeKey tm id))
        (Sink.plan mappings events))
      (content.performAll (Sink.plan mappings events)) :=
  mirrors.performAll
    ((agreesWithRowKey_hash_iff injective).mpr
      (agreesWithRowKey_compositeKey_iff.mpr unambiguous))
    (plannable_of_plan events)

end Points

end Sink
end Walkrie
