import Mathlib

/-!
# Change events and table mappings

The records that travel from the decoder to the sinks, and the part of a
sink's configuration that says which source columns it reads.  A byte string
of the program is the `String` with one character for each byte.
-/

namespace Walkrie

/-- A byte string as the bytes it consists of. -/
def bytes (text : String) : ByteArray :=
  ⟨(text.toList.map fun byte => UInt8.ofNat byte.toNat).toArray⟩

/-- The byte string is UTF-8. -/
def ValidUtf8 (text : String) : Prop :=
  (bytes text).IsValidUTF8

instance (text : String) : Decidable (ValidUtf8 text) :=
  inferInstanceAs (Decidable (bytes text).IsValidUTF8)

/-- One column of a decoded tuple.  The text is empty when the column is null
or unchanged-toast. -/
structure ColumnValue where
  name : String
  isNull : Bool := false
  isUnchangedToast : Bool := false
  textValue : String := ""
  deriving DecidableEq, Repr

/-- Which tuple of a replication message a decoded row comes from. -/
inductive TupleKind
  | insert
  | updateOld
  | updateNew
  | delete
  deriving DecidableEq, Repr

/-- A decoded tuple together with the relation it belongs to. -/
structure DecodedRow where
  schemaName : String := ""
  tableName : String := ""
  kind : TupleKind
  columns : List ColumnValue
  deriving DecidableEq, Repr

/-- Kinds of change event.  A commit carries no row, only a position. -/
inductive Op
  | insert
  | update
  | delete
  | truncate
  | commit
  deriving DecidableEq, Repr

/-- One decoded transaction-level event. -/
structure ChangeEvent where
  op : Op
  schemaName : String := ""
  tableName : String := ""
  oldRow : Option DecodedRow := none
  newRow : Option DecodedRow := none
  commitLsn : Nat := 0
  commitTimestamp : Nat := 0
  deriving DecidableEq, Repr

/-- One entry of a `columns` array.  The role is free text in the
configuration; only `id`, `embed` and `metadata` mean anything. -/
structure ColumnMapping where
  sourceColumn : String
  sinkColumn : String
  role : String
  deriving DecidableEq, Repr

/-- How one source table is written to a sink.  The id and embed columns are
derived from `columns` when the configuration is loaded. -/
structure TableMapping where
  sourceTable : String
  columns : List ColumnMapping
  idSource : String := ""
  idSink : String := ""
  embedSource : String := ""
  embedSink : String := ""
  hasDiscriminator : Bool := false
  discriminatorSink : String := ""
  discriminatorLabel : String := ""
  deriving DecidableEq, Repr

namespace TableMapping

/-- One turn of the loop of `resolve_columns`. -/
def resolveColumn (mapping : TableMapping) (column : ColumnMapping) :
    TableMapping :=
  if column.role = "id" then
    { mapping with
      idSource := column.sourceColumn, idSink := column.sinkColumn }
  else if column.role = "embed" then
    { mapping with
      embedSource := column.sourceColumn, embedSink := column.sinkColumn }
  else mapping

/-- The last column of each role wins. -/
def resolveColumns (mapping : TableMapping) : TableMapping :=
  mapping.columns.foldl resolveColumn mapping

/-- Source columns mapped as metadata, in configuration order. -/
def metadataSources (mapping : TableMapping) : List String :=
  (mapping.columns.filter fun column => column.role = "metadata").map
    ColumnMapping.sourceColumn

end TableMapping

namespace DecodedRow

/-- First column of a row with the given name. -/
def column? (row : DecodedRow) (name : String) : Option ColumnValue :=
  row.columns.find? fun column => column.name = name

/-- Text of a named column; null, unchanged-toast and missing columns all read
as the empty text. -/
def getColumn (row : DecodedRow) (name : String) : String :=
  match row.column? name with
  | none => ""
  | some column =>
      if column.isNull || column.isUnchangedToast then ""
      else column.textValue

/-- Whether a named column was sent as unchanged-toast. -/
def isToast (row : DecodedRow) (name : String) : Bool :=
  match row.column? name with
  | none => false
  | some column => column.isUnchangedToast

end DecodedRow

end Walkrie
