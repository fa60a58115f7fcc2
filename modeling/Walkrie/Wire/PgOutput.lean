import Walkrie.Event
import Walkrie.Wire.ByteUtils

/-!
# The pgoutput decoder

`PgOutputParser` decodes one logical-replication message at a time and keeps
two things between messages: the relations it has been told about, and the
commit time of the transaction in progress.  The source omits bounds checks;
here every read is a read from the message, and leaving it is a fault.  Three
times it asks for as much memory as a count or a length of the message
announces, before it has seen whether the message goes on that long.
-/

namespace Walkrie
namespace Wire

/-- What a Relation message says about a table. -/
structure RelationInfo where
  relationId : Nat
  schemaName : String
  tableName : String
  columnNames : List String
  deriving DecidableEq

/-- Members of the decoder. -/
structure PgOutputParser where
  relations : Nat → Option RelationInfo := fun _ => none
  pendingCommitTimestampUnixUs : Nat := 0

/-- `kPgEpochOffsetUs`: the year 2000 in microseconds of the Unix epoch. -/
def pgEpochOffsetUs : Nat := 946684800 * 1000000

/-- A request for the memory that a message announces. -/
inductive Request
  /-- `rel.column_names.reserve(num_columns)`. -/
  | columnNames (count : Nat)
  /-- `cv.text_value.assign(…, value_len)`. -/
  | textValue (length : Nat)
  /-- `events.reserve(num_relations)`. -/
  | events (count : Nat)
  deriving DecidableEq

/-- The requests that are met. -/
abbrev Memory := Request → Bool

/-- All requests are met. -/
def Memory.unlimited : Memory :=
  fun _ => true

/-- A request that is not met throws. -/
def reserve (memory : Memory) (request : Request) : Reader Unit :=
  if memory request then pure () else Reader.raise "std::bad_alloc"

/-- The loop over the columns of a Relation message. -/
def readColumnNames : Nat → Reader (List String)
  | 0 => pure []
  | count + 1 => do
      let _flags ← readU8
      let colName ← readCstr
      let _typeOid ← readU32
      let _typeModifier ← readU32
      let colNames ← readColumnNames count
      return colName :: colNames

/-- One column of a tuple. -/
def readColumn (memory : Memory) (name : String) : Reader ColumnValue := do
  let kindByte ← readU8
  if kindByte = tag 'n' then
    return { name, isNull := true }
  else if kindByte = tag 'u' then
    return { name, isUnchangedToast := true }
  else if kindByte = tag 't' then do
    let valueLen ← readU32
    reserve memory (.textValue valueLen)
    let value ← Reader.bytes valueLen
    return { name, textValue := text value }
  else
    Reader.raise "pgoutput: unexpected tuple column kind byte"

/-- The loop over the columns of a tuple; a column beyond the known names has
the empty name. -/
def readColumns (memory : Memory) :
    Nat → List String → Reader (List ColumnValue)
  | 0, _ => pure []
  | count + 1, names => do
      let column ← readColumn memory (names.headD "")
      let columns ← readColumns memory count names.tail
      return column :: columns

/-- `decode_tuple`. -/
def decodeTuple (memory : Memory) (rel : RelationInfo) (kind : TupleKind) :
    Reader DecodedRow := do
  let numColumns ← readU16
  let columns ← readColumns memory numColumns rel.columnNames
  return {
    schemaName := rel.schemaName
    tableName := rel.tableName
    kind
    columns }

/-- The old tuple of an Update, if its tag announces one, and the tag that
follows. -/
def readOldTuple (memory : Memory) (rel : RelationInfo) (first : UInt8) :
    Reader (Option DecodedRow × UInt8) :=
  if first = tag 'K' ∨ first = tag 'O' then do
    let oldRow ← decodeTuple memory rel .updateOld
    let next ← readU8
    return (some oldRow, next)
  else return (none, first)

/-- The new tuple of an Update, if the tag announces one. -/
def readNewTuple (memory : Memory) (rel : RelationInfo) (next : UInt8) :
    Reader (Option DecodedRow) :=
  if next = tag 'N' then do
    let newRow ← decodeTuple memory rel .updateNew
    return some newRow
  else return none

namespace PgOutputParser

/-- `relations_[rel.relation_id] = rel`. -/
def remember (parser : PgOutputParser) (rel : RelationInfo) :
    PgOutputParser :=
  { parser with
    relations := fun id =>
      if id = rel.relationId then some rel else parser.relations id }

/-- `handle_relation`. -/
def handleRelation (memory : Memory) (parser : PgOutputParser) :
    Reader PgOutputParser := do
  let relationId ← readU32
  let schemaName ← readCstr
  let tableName ← readCstr
  let _replicaIdentity ← readU8
  let numColumns ← readU16
  reserve memory (.columnNames numColumns)
  let columnNames ← readColumnNames numColumns
  return parser.remember { relationId, schemaName, tableName, columnNames }

/-- The commit time of a Begin message, shifted to the Unix epoch. -/
def readCommitTime (parser : PgOutputParser) : Reader PgOutputParser := do
  let pgEpochUs ← readU64
  return { parser with
    pendingCommitTimestampUnixUs := (pgEpochUs + pgEpochOffsetUs) % 2 ^ 64 }

/-- `handle_begin`: the commit time lies behind the final position; a truncated
message is logged and ignored. -/
def handleBegin (parser : PgOutputParser) : Reader PgOutputParser :=
  ⟨fun data =>
    if data.length < 20 then .ok (parser, data)
    else parser.readCommitTime.run (data.drop 8)⟩

/-- An event about a relation, with the commit time of the transaction. -/
def changeEvent
    (parser : PgOutputParser)
    (op : Op)
    (rel : RelationInfo)
    (oldRow newRow : Option DecodedRow) : ChangeEvent where
  op := op
  schemaName := rel.schemaName
  tableName := rel.tableName
  oldRow := oldRow
  newRow := newRow
  commitTimestamp := parser.pendingCommitTimestampUnixUs

/-- The loop of `handle_truncate`: unknown relations are skipped. -/
def readTruncated (parser : PgOutputParser) : Nat → Reader (List ChangeEvent)
  | 0 => pure []
  | count + 1 => do
      let relId ← readU32
      let events ← parser.readTruncated count
      match parser.relations relId with
      | none => return events
      | some rel =>
          return parser.changeEvent .truncate rel none none :: events

/-- `handle_truncate`. -/
def handleTruncate (memory : Memory) (parser : PgOutputParser) :
    Reader (List ChangeEvent) := do
  let numRelations ← readU32
  let _flags ← readU8
  reserve memory (.events numRelations)
  parser.readTruncated numRelations

/-- The relation a change refers to. -/
def findRelation (parser : PgOutputParser) (missing : String) :
    Reader RelationInfo := do
  let relId ← readU32
  match parser.relations relId with
  | none => Reader.raise missing
  | some rel => return rel

/-- The Insert branch of `parse`. -/
def parseInsert (memory : Memory) (parser : PgOutputParser) :
    Reader ChangeEvent := do
  let rel ← parser.findRelation
    "pgoutput: Insert for unknown relation (missing Relation message)"
  let _tupleTag ← readU8
  let newRow ← decodeTuple memory rel .insert
  return parser.changeEvent .insert rel none (some newRow)

/-- The Update branch of `parse`. -/
def parseUpdate (memory : Memory) (parser : PgOutputParser) :
    Reader ChangeEvent := do
  let rel ← parser.findRelation
    "pgoutput: Update for unknown relation (missing Relation message)"
  let first ← readU8
  let old ← readOldTuple memory rel first
  let newRow ← readNewTuple memory rel old.2
  return parser.changeEvent .update rel old.1 newRow

/-- The Delete branch of `parse`. -/
def parseDelete (memory : Memory) (parser : PgOutputParser) :
    Reader ChangeEvent := do
  let rel ← parser.findRelation
    "pgoutput: Delete for unknown relation (missing Relation message)"
  let _tag ← readU8
  let oldRow ← decodeTuple memory rel .delete
  return parser.changeEvent .delete rel (some oldRow) none

/-- The switch of `parse` on the type of a message. -/
def parseBody (memory : Memory) (parser : PgOutputParser)
    (msgType : UInt8) :
    Reader (PgOutputParser × Option (List ChangeEvent)) :=
  if msgType = tag 'B' then do
    let parser ← parser.handleBegin
    return (parser, none)
  else if msgType = tag 'C' then
    return (parser, some [{
      op := .commit
      commitTimestamp := parser.pendingCommitTimestampUnixUs }])
  else if msgType = tag 'R' then do
    let parser ← parser.handleRelation memory
    return (parser, none)
  else if msgType = tag 'Y' then return (parser, none)
  else if msgType = tag 'O' then return (parser, none)
  else if msgType = tag 'T' then do
    let events ← parser.handleTruncate memory
    return (parser, some events)
  else if msgType = tag 'I' then do
    let event ← parser.parseInsert memory
    return (parser, some [event])
  else if msgType = tag 'U' then do
    let event ← parser.parseUpdate memory
    return (parser, some [event])
  else if msgType = tag 'D' then do
    let event ← parser.parseDelete memory
    return (parser, some [event])
  -- An unknown type is skipped.
  else return (parser, none)

/-- A message: its type, then what the type says. -/
def parseMessage (memory : Memory) (parser : PgOutputParser) :
    Reader (PgOutputParser × Option (List ChangeEvent)) := do
  let msgType ← readU8
  parser.parseBody memory msgType

/-- `parse`: no value for a message that surfaces no event. -/
def parse (memory : Memory) (parser : PgOutputParser)
    (data : List UInt8) :
    Except Reader.Fault (PgOutputParser × Option (List ChangeEvent)) :=
  if data.length = 0 then .ok (parser, none)
  else ((parser.parseMessage memory).run data).map Prod.fst

end PgOutputParser
end Wire
end Walkrie
