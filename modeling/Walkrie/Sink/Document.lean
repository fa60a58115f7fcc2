import Walkrie.Library.Table
import Walkrie.Sink.PointId
import Walkrie.Sink.Records

/-!
# The documents of Qdrant and Milvus

An upsert writes all roles of a row into one object, one after the other, under
names that the configuration chooses and, for Milvus, that the collection has
for its primary key and its vector.  A later role replaces an earlier one of
the same name.  So a document holds every role, whatever the row, exactly when
the names are all different; the checks at start-up ask for less.
-/

namespace Walkrie

namespace Sink

/-- A value in a document. -/
inductive FieldValue (φ : Type)
  | text (value : String)
  | integer (value : Int64)
  | vector (scalars : List φ)
  deriving DecidableEq

/-- An object: writing a name that is there replaces its value. -/
abbrev Document (φ : Type) := Table String (FieldValue φ)

variable {φ : Type}

/-- Write fields one after the other. -/
def Document.write (fields : List (String × FieldValue φ)) : Document φ :=
  fields.foldl (fun document field => Table.upsert document field.1 field.2) ∅

/-- What a truncate asks of a document: a name and the value it has to have.
Without a discriminator it asks for nothing. -/
def truncateCondition (tm : TableMapping) : Option (String × String) :=
  if tm.hasDiscriminator then
    some (tm.discriminatorSink, tm.discriminatorLabel)
  else none

end Sink

open Sink

variable {φ : Type}

namespace QdrantSink

/-- A point: its id, its vector and its payload. -/
structure Point (Id φ : Type) where
  id : Id
  vector : List φ
  payload : Document φ

end QdrantSink

namespace MilvusSink

/-- One field of a collection, as the server describes it, with the values of
its `dim` parameters. -/
structure FieldDescription where
  name : String
  type : String
  primaryKey : Bool := false
  dims : List Int := []

/-- What `init()` finds out about a collection. -/
structure Fields where
  pkField : String := ""
  pkIsVarchar : Bool := false
  vectorField : String := ""
  collectionDims : Int := -1
  deriving DecidableEq

/-- One turn of the loop over the described fields. -/
def discover (fields : Fields) (field : FieldDescription) : Fields :=
  let fields :=
    if field.primaryKey then
      { fields with
        pkField := field.name
        pkIsVarchar := field.type == "VarChar" }
    else fields
  if field.type = "FloatVector" then
    { fields with
      vectorField := field.name
      collectionDims := field.dims.getLastD fields.collectionDims }
  else fields

/-- The check of one mapping in `init()`. -/
def collision (collection : String) (fields : Fields) (tm : TableMapping) :
    Option String :=
  if tm.idSink = fields.pkField ∨ tm.idSink = fields.vectorField then
    some ("MilvusSink: table_mapping for '" ++ tm.sourceTable ++
      "' has id role sink_column='" ++ tm.idSink ++
      "' which collides with collection '" ++ collection ++
      "'s auto-populated pk/vector field — pick a distinct scalar field to " ++
      "hold the readable source id")
  else if tm.embedSink = fields.pkField ∨
      tm.embedSink = fields.vectorField then
    some ("MilvusSink: table_mapping for '" ++ tm.sourceTable ++
      "' has embed role sink_column='" ++ tm.embedSink ++
      "' which collides with collection '" ++ collection ++
      "'s auto-populated pk/vector field — pick a distinct scalar field to " ++
      "hold the source text")
  else none

/-- `MilvusSink::init`, once the server has described the collection. -/
def init (collection : String) (providerDims : Int)
    (mappings : List TableMapping) (described : List FieldDescription) :
    Except String Fields :=
  let fields := described.foldl discover {}
  if fields.pkField = "" then
    .error ("MilvusSink: couldn't find a primary key field on collection '" ++
      collection ++ "'")
  else if fields.vectorField = "" ∨ fields.collectionDims < 0 then
    .error ("MilvusSink: couldn't find a FloatVector field with a dim param " ++
      "on collection '" ++ collection ++
      "' — named/multi-vector collections aren't supported yet")
  else if fields.collectionDims ≠ providerDims then
    .error ("MilvusSink: collection '" ++ collection ++ "' vector field '" ++
      fields.vectorField ++ "' dim (" ++ toString fields.collectionDims ++
      ") does not match the embedding provider's " ++ toString providerDims ++
      " dimensions")
  else
    match mappings.findSome? (collision collection fields) with
    | some message => .error message
    | none => .ok fields

/-- The two hashes of a composite key. -/
structure Hashes where
  uuid5For : String → String
  int64IdFor : String → Int64

/-- The value of the primary key. -/
def pkValue (hashes : Hashes) (fields : Fields) (tm : TableMapping)
    (idValue : String) : FieldValue φ :=
  if fields.pkIsVarchar then
    .text (primaryKey hashes.uuid5For tm idValue)
  else .integer (primaryKey hashes.int64IdFor tm idValue)

end MilvusSink

/-! ## What a document should hold -/

/-- The roles of a row, each under its own name, so that a truncate of the
mapping matches. -/
structure HoldsRow (tm : TableMapping) (idValue embedText : String)
    (metadataValues : List String) (document : Document φ) : Prop where
  id : document.lookup tm.idSink = some (.text idValue)
  embed : document.lookup tm.embedSink = some (.text embedText)
  label : tm.hasDiscriminator = true →
    document.lookup tm.discriminatorSink = some (.text tm.discriminatorLabel)
  metadata : ∀ pair ∈ tm.metadataSinks.zip metadataValues,
    document.lookup pair.1 = some (.text pair.2)
  truncated : ∀ condition ∈ truncateCondition tm,
    document.lookup condition.1 = some (.text condition.2)

/-- The point holds the hashed id, the vector and the row. -/
structure QdrantSink.Holds {Id : Type} (uuid5 : String → Id)
    (tm : TableMapping) (idValue embedText : String)
    (metadataValues : List String) (embedding : List φ)
    (point : QdrantSink.Point Id φ) : Prop where
  id : point.id = pointIdFor uuid5 tm idValue
  vector : point.vector = embedding
  row : HoldsRow tm idValue embedText metadataValues point.payload

/-- The entity holds the hashed id, the vector and the row. -/
structure MilvusSink.Holds (hashes : MilvusSink.Hashes)
    (fields : MilvusSink.Fields) (tm : TableMapping)
    (idValue embedText : String) (metadataValues : List String)
    (embedding : List φ) (entity : Document φ) : Prop where
  id : entity.lookup fields.pkField = some (pkValue hashes fields tm idValue)
  vector : entity.lookup fields.vectorField = some (.vector embedding)
  row : HoldsRow tm idValue embedText metadataValues entity

/-! ## Metadata and names -/

namespace Sink

variable {tm : TableMapping}

/-- The name of the label, if there is one. -/
def labelNames (tm : TableMapping) : List String :=
  if tm.hasDiscriminator then [tm.discriminatorSink] else []

/-- The names of a row. -/
def rowNames (tm : TableMapping) : List String :=
  tm.idSink :: tm.embedSink :: (labelNames tm ++ tm.metadataSinks)

end Sink

namespace QdrantSink

variable {Id : Type}
variable {uuid5 : String → Id}
variable {tm : TableMapping}
variable {idValue embedText : String}
variable {values : List String}
variable {embedding : List φ}

/-- The names of a payload. -/
def names (tm : TableMapping) : List String :=
  tm.idSink :: (labelNames tm ++ tm.embedSink :: tm.metadataSinks)

end QdrantSink

namespace MilvusSink

variable {hashes : Hashes}
variable {fields : Fields}
variable {tm : TableMapping}
variable {idValue embedText : String}
variable {values : List String}
variable {embedding : List φ}

/-- The names of an entity. -/
def names (fields : Fields) (tm : TableMapping) : List String :=
  fields.pkField :: fields.vectorField :: rowNames tm

end MilvusSink

/-! ## The names decide -/

/-- What `init()` finds out about it. -/
def articleFields : MilvusSink.Fields where
  pkField := "pk"
  pkIsVarchar := true
  vectorField := "vec"
  collectionDims := 2

end Walkrie
