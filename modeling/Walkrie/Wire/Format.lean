import Walkrie.Wire.Frame

/-!
# The documented message layout and its meaning

Messages of the logical replication protocol, version 1, their layout as
bytes, and what a stream of them denotes.  The meaning is given from the
history of the stream, without a decoder: names come from the latest Relation
message for an OID, the commit time from the latest Begin.
-/

namespace Walkrie
namespace Wire

open BigEndian

/-- A column of a Relation message. -/
structure ColumnLayout where
  flags : UInt8
  name : List UInt8
  typeOid : Nat
  typeModifier : Nat

/-- A column of a tuple. -/
inductive Field
  | null
  | unchangedToast
  | text (value : List UInt8)

/-- The old tuple of a change: key columns only, or the full row. -/
inductive OldTuple
  | key (fields : List Field)
  | full (fields : List Field)

/-- A relation as its message describes it. -/
structure RelationLayout where
  oid : Nat
  schema : List UInt8
  table : List UInt8
  replicaIdentity : UInt8
  columns : List ColumnLayout

/-- The messages of the protocol. -/
inductive Message
  | begin (finalLsn commitTime xid : Nat)
  | commit (flags : UInt8) (commitLsn endLsn commitTime : Nat)
  | relation (layout : RelationLayout)
  | type (oid : Nat) (schema name : List UInt8)
  | origin (lsn : Nat) (name : List UInt8)
  | insert (oid : Nat) (new : List Field)
  | update (oid : Nat) (old : Option OldTuple) (new : List Field)
  | delete (oid : Nat) (old : OldTuple)
  | truncate (options : UInt8) (oids : List Nat)

/-! ## Layout -/

/-- A name with its terminator. -/
def cstr (name : List UInt8) : List UInt8 :=
  name ++ [0]

def ColumnLayout.encode (column : ColumnLayout) : List UInt8 :=
  column.flags :: cstr column.name ++ toBytes 4 column.typeOid ++
    toBytes 4 column.typeModifier

def Field.encode : Field → List UInt8
  | .null => [tag 'n']
  | .unchangedToast => [tag 'u']
  | .text value => tag 't' :: toBytes 4 value.length ++ value

/-- TupleData: the number of columns, then the columns. -/
def encodeTuple (fields : List Field) : List UInt8 :=
  toBytes 2 fields.length ++ fields.flatMap Field.encode

def OldTuple.encode : OldTuple → List UInt8
  | .key fields => tag 'K' :: encodeTuple fields
  | .full fields => tag 'O' :: encodeTuple fields

def RelationLayout.encode (layout : RelationLayout) : List UInt8 :=
  toBytes 4 layout.oid ++ cstr layout.schema ++ cstr layout.table ++
    layout.replicaIdentity :: toBytes 2 layout.columns.length ++
    layout.columns.flatMap ColumnLayout.encode

def Message.encode : Message → List UInt8
  | .begin finalLsn commitTime xid =>
      tag 'B' :: toBytes 8 finalLsn ++ toBytes 8 commitTime ++ toBytes 4 xid
  | .commit flags commitLsn endLsn commitTime =>
      tag 'C' :: flags :: toBytes 8 commitLsn ++ toBytes 8 endLsn ++
        toBytes 8 commitTime
  | .relation layout => tag 'R' :: layout.encode
  | .type oid schema name =>
      tag 'Y' :: toBytes 4 oid ++ cstr schema ++ cstr name
  | .origin lsn name => tag 'O' :: toBytes 8 lsn ++ cstr name
  | .insert oid new =>
      tag 'I' :: toBytes 4 oid ++ tag 'N' :: encodeTuple new
  | .update oid old new =>
      tag 'U' :: toBytes 4 oid ++ (old.map OldTuple.encode).getD [] ++
        tag 'N' :: encodeTuple new
  | .delete oid old => tag 'D' :: toBytes 4 oid ++ old.encode
  | .truncate options oids =>
      tag 'T' :: toBytes 4 oids.length ++ options :: oids.flatMap (toBytes 4)

/-- An XLogData frame with its header. -/
structure Frame where
  walStart : Nat
  walEnd : Nat
  sendTime : Nat
  message : Message

def Frame.encode (frame : Frame) : List UInt8 :=
  tag 'w' :: toBytes 8 frame.walStart ++ toBytes 8 frame.walEnd ++
    toBytes 8 frame.sendTime ++ frame.message.encode

/-! ## Well-formed messages -/

/-- Names contain no terminator. -/
def NameValid (name : List UInt8) : Prop :=
  0 ∉ name

structure ColumnLayout.Valid (column : ColumnLayout) : Prop where
  name : NameValid column.name
  typeOid : column.typeOid < 2 ^ 32
  typeModifier : column.typeModifier < 2 ^ 32

def Field.Valid : Field → Prop
  | .null | .unchangedToast => True
  | .text value => value.length < 2 ^ 32

structure TupleValid (fields : List Field) : Prop where
  count : fields.length < 2 ^ 16
  fields : ∀ field ∈ fields, field.Valid

def OldTuple.Valid : OldTuple → Prop
  | .key fields | .full fields => TupleValid fields

structure RelationLayout.Valid (layout : RelationLayout) : Prop where
  oid : layout.oid < 2 ^ 32
  schema : NameValid layout.schema
  table : NameValid layout.table
  count : layout.columns.length < 2 ^ 16
  columns : ∀ column ∈ layout.columns, column.Valid

def Message.Valid : Message → Prop
  | .begin finalLsn commitTime xid =>
      finalLsn < 2 ^ 64 ∧ commitTime < 2 ^ 64 ∧ xid < 2 ^ 32
  | .commit _ commitLsn endLsn commitTime =>
      commitLsn < 2 ^ 64 ∧ endLsn < 2 ^ 64 ∧ commitTime < 2 ^ 64
  | .relation layout => layout.Valid
  | .type oid schema name => oid < 2 ^ 32 ∧ NameValid schema ∧ NameValid name
  | .origin lsn name => lsn < 2 ^ 64 ∧ NameValid name
  | .insert oid new => oid < 2 ^ 32 ∧ TupleValid new
  | .update oid old new =>
      oid < 2 ^ 32 ∧ (∀ tuple ∈ old, tuple.Valid) ∧ TupleValid new
  | .delete oid old => oid < 2 ^ 32 ∧ old.Valid
  | .truncate _ oids => oids.length < 2 ^ 32 ∧ ∀ oid ∈ oids, oid < 2 ^ 32

structure Frame.Valid (frame : Frame) : Prop where
  walStart : frame.walStart < 2 ^ 64
  walEnd : frame.walEnd < 2 ^ 64
  sendTime : frame.sendTime < 2 ^ 64
  message : frame.message.Valid

/-! ## Meaning -/

/-- The latest Relation message for an OID.  Histories have the latest message
first. -/
def latestRelation (oid : Nat) : List Message → Option RelationLayout
  | [] => none
  | .relation layout :: history =>
      if layout.oid = oid then some layout else latestRelation oid history
  | _ :: history => latestRelation oid history

/-- The commit time of the latest Begin, in microseconds of the Unix epoch. -/
def latestCommitTimestamp : List Message → Nat
  | [] => 0
  | .begin _ commitTime _ :: _ =>
      (commitTime + 946684800 * 1000000) % 2 ^ 64
  | _ :: history => latestCommitTimestamp history

/-- A field as a named column. -/
def Field.denotes (name : String) : Field → ColumnValue
  | .null => { name, isNull := true }
  | .unchangedToast => { name, isUnchangedToast := true }
  | .text value => { name, textValue := Wire.text value }

/-- Fields take the names of the columns in order, and no name beyond them. -/
def denoteFields : List String → List Field → List ColumnValue
  | _, [] => []
  | [], field :: fields => field.denotes "" :: denoteFields [] fields
  | name :: names, field :: fields =>
      field.denotes name :: denoteFields names fields

def denoteTuple
    (layout : RelationLayout)
    (kind : TupleKind)
    (fields : List Field) : DecodedRow where
  schemaName := text layout.schema
  tableName := text layout.table
  kind := kind
  columns :=
    denoteFields (layout.columns.map fun column => text column.name) fields

def OldTuple.fields : OldTuple → List Field
  | .key fields | .full fields => fields

/-- A change of one row of a relation. -/
def denoteChange
    (history : List Message)
    (op : Op)
    (layout : RelationLayout)
    (old new : Option DecodedRow) : ChangeEvent where
  op := op
  schemaName := text layout.schema
  tableName := text layout.table
  oldRow := old
  newRow := new
  commitTimestamp := latestCommitTimestamp history

/-- What a message denotes after a history: no event, events, or an error. -/
def Message.denotes (history : List Message) :
    Message → Except String (Option (List ChangeEvent))
  | .begin .. | .relation .. | .type .. | .origin .. => .ok none
  | .commit .. =>
      .ok (some [{
        op := .commit
        commitTimestamp := latestCommitTimestamp history }])
  | .insert oid new =>
      match latestRelation oid history with
      | none =>
          .error "pgoutput: Insert for unknown relation (missing Relation message)"
      | some layout =>
          .ok (some [denoteChange history .insert layout none
            (some (denoteTuple layout .insert new))])
  | .update oid old new =>
      match latestRelation oid history with
      | none =>
          .error "pgoutput: Update for unknown relation (missing Relation message)"
      | some layout =>
          .ok (some [denoteChange history .update layout
            (old.map fun tuple =>
              denoteTuple layout .updateOld tuple.fields)
            (some (denoteTuple layout .updateNew new))])
  | .delete oid old =>
      match latestRelation oid history with
      | none =>
          .error "pgoutput: Delete for unknown relation (missing Relation message)"
      | some layout =>
          .ok (some [denoteChange history .delete layout
            (some (denoteTuple layout .delete old.fields)) none])
  | .truncate _ oids =>
      .ok (some (oids.filterMap fun oid =>
        (latestRelation oid history).map fun layout =>
          denoteChange history .truncate layout none none))

/-- The OID an Insert, Update or Delete names. -/
def Message.target? : Message → Option Nat
  | .insert oid _ | .update oid _ _ | .delete oid _ => some oid
  | _ => none

/-- A frame stamps the events of its message with its start position. -/
def Frame.denotes (history : List Message) (frame : Frame) : FrameEffect :=
  match frame.message.denotes history with
  | .error message => .decodeError frame.walStart message
  | .ok events =>
      .decoded (events.map fun events => events.map fun event =>
        { event with commitLsn := frame.walStart })

/-- What a stream of frames denotes, frame by frame. -/
def denoteStream (history : List Message) : List Frame → List FrameEffect
  | [] => []
  | frame :: frames =>
      frame.denotes history :: denoteStream (frame.message :: history) frames

/-- An OID has no latest Relation message exactly when it has none. -/
theorem latestRelation_eq_none_iff
    {oid : Nat}
    {history : List Message} :
    latestRelation oid history = none ↔
      ∀ layout, Message.relation layout ∈ history → layout.oid ≠ oid := by
  induction history with
  | nil => simp [latestRelation]
  | cons message history inductionHypothesis =>
      cases message with
      | relation layout =>
          simp only [latestRelation, List.mem_cons, Message.relation.injEq]
          split <;> rename_i same
          · simp only [reduceCtorEq, false_iff, not_forall]
            exact ⟨layout, .inl rfl, not_not_intro same⟩
          · rw [inductionHypothesis]
            constructor
            · rintro absent other (rfl | earlier)
              · exact same
              · exact absent other earlier
            · exact fun absent other earlier => absent other (.inr earlier)
      | _ => simp [latestRelation, inductionHypothesis]

/-- A message is an error exactly when it changes a row of a relation the
history does not describe. -/
theorem Message.denotes_error_iff
    {message : Message}
    {history : List Message} :
    (∃ problem, message.denotes history = .error problem) ↔
      ∃ oid, message.target? = some oid ∧
        latestRelation oid history = none := by
  have changes : ∀ {oid : Nat} {problem : String}
      {events : RelationLayout → Option (List ChangeEvent)},
      (∃ other, (match latestRelation oid history with
        | none => .error problem
        | some layout => .ok (events layout) :
          Except String (Option (List ChangeEvent))) = .error other) ↔
        latestRelation oid history = none := by
    intro oid problem events
    cases latestRelation oid history <;> simp
  cases message with
  | insert oid new => simp [denotes, target?, changes]
  | update oid old new => simp [denotes, target?, changes]
  | delete oid old => simp [denotes, target?, changes]
  | _ => simp [denotes, target?]

/-- The effect of a frame is the meaning of its message after those of the
frames before it. -/
theorem denoteStream_getElem?
    (history : List Message)
    (frames : List Frame)
    (index : Nat) :
    (denoteStream history frames)[index]? =
      frames[index]?.map fun frame =>
        frame.denotes
          (((frames.take index).map Frame.message).reverse ++ history) := by
  induction frames generalizing history index with
  | nil => rfl
  | cons frame frames inductionHypothesis =>
      cases index with
      | zero => rfl
      | succ index =>
          simp only [denoteStream, List.getElem?_cons_succ,
            inductionHypothesis, List.take_succ_cons, List.map_cons,
            List.reverse_cons, List.append_assoc, List.singleton_append]

/-- The effect is a decode error. -/
def FrameEffect.IsError (effect : FrameEffect) : Prop :=
  ∃ lsn problem, effect = .decodeError lsn problem

theorem Frame.denotes_isError_iff
    {frame : Frame}
    {history : List Message} :
    (frame.denotes history).IsError ↔
      ∃ problem, frame.message.denotes history = .error problem := by
  unfold Frame.denotes FrameEffect.IsError
  cases frame.message.denotes history <;> simp

end Wire
end Walkrie
