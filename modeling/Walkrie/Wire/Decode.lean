import Walkrie.Wire.Format

/-!
# Decoding inverts the layout

The decoder reads back every field it is sent, and its two members are what
the history of the stream says: the latest Relation message for each OID and
the commit time of the latest Begin.  It only needs to get the memory it asks
for.
-/

namespace Walkrie
namespace Wire

open BigEndian

/-! ## Memory -/

/-- The memory a field is read into. -/
def Field.requests : Field → List Request
  | .text value => [.textValue value.length]
  | .null | .unchangedToast => []

def OldTuple.requests : OldTuple → List Request
  | .key fields | .full fields => fields.flatMap Field.requests

/-- The memory that is asked for while a message is read. -/
def Message.requests : Message → List Request
  | .relation layout => [.columnNames layout.columns.length]
  | .insert _ new => new.flatMap Field.requests
  | .update _ old new =>
      (old.map OldTuple.requests).getD [] ++ new.flatMap Field.requests
  | .delete _ old => old.requests
  | .truncate _ oids => [.events oids.length]
  | .begin .. | .commit .. | .type .. | .origin .. => []

/-- There is memory for all of these. -/
def Memory.Meets (memory : Memory) (requests : List Request) : Prop :=
  ∀ request ∈ requests, memory request = true

theorem Memory.meets_unlimited (requests : List Request) :
    Memory.unlimited.Meets requests :=
  fun _ _ => rfl

theorem reserve_of_met
    {memory : Memory}
    {request : Request}
    (met : memory request = true)
    (input : List UInt8) :
    (reserve memory request).run input = .ok ((), input) := by
  rw [reserve, if_pos met]
  rfl

theorem reserve_of_refused
    {memory : Memory}
    {request : Request}
    (refused : memory request = false)
    (input : List UInt8) :
    (reserve memory request).run input =
      .error (.thrown "std::bad_alloc") := by
  rw [reserve, refused]
  rfl

/-! ## Fields -/

theorem readU16_encode
    {value : Nat}
    (bound : value < 2 ^ 16)
    (rest : List UInt8) :
    readU16.run (toBytes 2 value ++ rest) = .ok (value, rest) :=
  readU16_eq_ok_iff.mpr ⟨bound, rfl⟩

theorem readU32_encode
    {value : Nat}
    (bound : value < 2 ^ 32)
    (rest : List UInt8) :
    readU32.run (toBytes 4 value ++ rest) = .ok (value, rest) :=
  readU32_eq_ok_iff.mpr ⟨bound, rfl⟩

theorem readU64_encode
    {value : Nat}
    (bound : value < 2 ^ 64)
    (rest : List UInt8) :
    readU64.run (toBytes 8 value ++ rest) = .ok (value, rest) :=
  readU64_eq_ok_iff.mpr ⟨bound, rfl⟩

theorem readCstr_encode
    {name : List UInt8}
    (valid : NameValid name)
    (rest : List UInt8) :
    readCstr.run (cstr name ++ rest) = .ok (text name, rest) :=
  readCstr_eq_ok_iff.mpr ⟨name, valid, rfl, by simp [cstr]⟩

theorem readU8_cons (head : UInt8) (rest : List UInt8) :
    readU8.run (head :: rest) = .ok (head, rest) := rfl

theorem readColumnNames_encode
    {columns : List ColumnLayout}
    (valid : ∀ column ∈ columns, column.Valid)
    (rest : List UInt8) :
    (readColumnNames columns.length).run
        (columns.flatMap ColumnLayout.encode ++ rest) =
      .ok (columns.map fun column => text column.name, rest) := by
  induction columns with
  | nil => rfl
  | cons column columns inductionHypothesis =>
      have first := valid column List.mem_cons_self
      have others := inductionHypothesis fun other member =>
        valid other (List.mem_cons_of_mem column member)
      simp only [List.flatMap_cons, ColumnLayout.encode, List.cons_append,
        List.append_assoc, List.length_cons, List.map_cons, readColumnNames]
      rw [Reader.bind_of_ok (readU8_cons _ _),
        Reader.bind_of_ok (readCstr_encode first.name _),
        Reader.bind_of_ok (readU32_encode first.typeOid _),
        Reader.bind_of_ok (readU32_encode first.typeModifier _),
        Reader.bind_of_ok others]
      rfl

theorem readColumn_encode
    {memory : Memory}
    {field : Field}
    (valid : field.Valid)
    (met : memory.Meets field.requests)
    (name : String)
    (rest : List UInt8) :
    (readColumn memory name).run (field.encode ++ rest) =
      .ok (field.denotes name, rest) := by
  cases field with
  | null => rfl
  | unchangedToast => rfl
  | text value =>
      simp only [Field.encode, List.cons_append, List.append_assoc, readColumn]
      rw [Reader.bind_of_ok (readU8_cons _ _), if_neg (by decide),
        if_neg (by decide), if_pos rfl,
        Reader.bind_of_ok (readU32_encode valid _),
        Reader.bind_of_ok (reserve_of_met (met _ List.mem_cons_self) _),
        Reader.bind_of_ok (Reader.bytes_eq_ok_iff.mpr ⟨rfl, rfl⟩)]
      rfl

theorem readColumns_encode
    {memory : Memory}
    {fields : List Field}
    (valid : ∀ field ∈ fields, field.Valid)
    (met : memory.Meets (fields.flatMap Field.requests))
    (names : List String)
    (rest : List UInt8) :
    (readColumns memory fields.length names).run
        (fields.flatMap Field.encode ++ rest) =
      .ok (denoteFields names fields, rest) := by
  induction fields generalizing names with
  | nil => cases names <;> rfl
  | cons field fields inductionHypothesis =>
      rw [List.forall_mem_cons] at valid
      rw [List.flatMap_cons, Memory.Meets, List.forall_mem_append] at met
      have others := inductionHypothesis valid.2 met.2
      simp only [List.flatMap_cons, List.append_assoc, List.length_cons,
        readColumns]
      rw [Reader.bind_of_ok (readColumn_encode valid.1 met.1 _ _)]
      cases names with
      | nil => exact Reader.bind_of_ok (others [])
      | cons name names => exact Reader.bind_of_ok (others names)

/-- A row of a relation the decoder knows. -/
def RelationInfo.row
    (rel : RelationInfo)
    (kind : TupleKind)
    (fields : List Field) : DecodedRow where
  schemaName := rel.schemaName
  tableName := rel.tableName
  kind := kind
  columns := denoteFields rel.columnNames fields

theorem decodeTuple_encode
    {memory : Memory}
    {fields : List Field}
    (valid : TupleValid fields)
    (met : memory.Meets (fields.flatMap Field.requests))
    (rel : RelationInfo)
    (kind : TupleKind)
    (rest : List UInt8) :
    (decodeTuple memory rel kind).run (encodeTuple fields ++ rest) =
      .ok (rel.row kind fields, rest) := by
  simp only [encodeTuple, List.append_assoc, decodeTuple]
  rw [Reader.bind_of_ok (readU16_encode valid.count _)]
  exact Reader.bind_of_ok (readColumns_encode valid.fields met _ _)

/-- What the decoder remembers of a Relation message. -/
def RelationLayout.info (layout : RelationLayout) : RelationInfo where
  relationId := layout.oid
  schemaName := text layout.schema
  tableName := text layout.table
  columnNames := layout.columns.map fun column => text column.name

/-! ## The decoder and the history of the stream -/

/-- The members of the decoder are what the history says. -/
structure Agrees (parser : PgOutputParser) (history : List Message) : Prop where
  relations : ∀ oid,
    parser.relations oid = (latestRelation oid history).map RelationLayout.info
  timestamp :
    parser.pendingCommitTimestampUnixUs = latestCommitTimestamp history

theorem agrees_initial : Agrees {} [] :=
  ⟨fun _ => rfl, rfl⟩

theorem findRelation_encode
    {parser : PgOutputParser}
    {history : List Message}
    {oid : Nat}
    (agrees : Agrees parser history)
    (bound : oid < 2 ^ 32)
    (missing : String)
    (rest : List UInt8) :
    (parser.findRelation missing).run (toBytes 4 oid ++ rest) =
      match latestRelation oid history with
      | none => .error (.thrown missing)
      | some layout => .ok (layout.info, rest) := by
  unfold PgOutputParser.findRelation
  rw [Reader.bind_of_ok (readU32_encode bound _), agrees.relations]
  cases latestRelation oid history <;> rfl

theorem handleRelation_encode
    {memory : Memory}
    {layout : RelationLayout}
    (valid : layout.Valid)
    (met : memory (.columnNames layout.columns.length) = true)
    (parser : PgOutputParser)
    (rest : List UInt8) :
    (parser.handleRelation memory).run (layout.encode ++ rest) =
      .ok (parser.remember layout.info, rest) := by
  simp only [RelationLayout.encode, List.append_assoc, List.cons_append,
    PgOutputParser.handleRelation]
  rw [Reader.bind_of_ok (readU32_encode valid.oid _),
    Reader.bind_of_ok (readCstr_encode valid.schema _),
    Reader.bind_of_ok (readCstr_encode valid.table _),
    Reader.bind_of_ok (readU8_cons _ _),
    Reader.bind_of_ok (readU16_encode valid.count _),
    Reader.bind_of_ok (reserve_of_met met _),
    Reader.bind_of_ok (readColumnNames_encode valid.columns _)]
  rfl

theorem readTruncated_encode
    {parser : PgOutputParser}
    {history : List Message}
    {oids : List Nat}
    (agrees : Agrees parser history)
    (bounds : ∀ oid ∈ oids, oid < 2 ^ 32)
    (rest : List UInt8) :
    (parser.readTruncated oids.length).run (oids.flatMap (toBytes 4) ++ rest) =
      .ok (oids.filterMap fun oid =>
        (latestRelation oid history).map fun layout =>
          denoteChange history .truncate layout none none, rest) := by
  induction oids with
  | nil => rfl
  | cons oid oids inductionHypothesis =>
      have others := inductionHypothesis fun other member =>
        bounds other (List.mem_cons_of_mem oid member)
      simp only [List.flatMap_cons, List.append_assoc, List.length_cons,
        PgOutputParser.readTruncated]
      rw [Reader.bind_of_ok (readU32_encode (bounds oid List.mem_cons_self) _),
        Reader.bind_of_ok others, agrees.relations]
      cases found : latestRelation oid history with
      | none => simp [found]
      | some layout =>
          simp [found, denoteChange, agrees.timestamp, RelationLayout.info,
            PgOutputParser.changeEvent]

/-! ## Messages -/

theorem parse_cons
    (memory : Memory)
    (parser : PgOutputParser)
    (msgType : UInt8)
    (body : List UInt8) :
    parser.parse memory (msgType :: body) =
      ((parser.parseBody memory msgType).run body).map Prod.fst := rfl

/-- The outcome of a message, and the members it leaves behind. -/
def Decodes
    (memory : Memory)
    (parser : PgOutputParser)
    (history : List Message)
    (message : Message) : Prop :=
  ∃ next, Agrees next (message :: history) ∧
    match message.denotes history with
    | .ok events => parser.parse memory message.encode = .ok (next, events)
    | .error problem =>
        next = parser ∧
          parser.parse memory message.encode = .error (.thrown problem)

section Messages

variable {memory : Memory}
variable {parser : PgOutputParser} {history : List Message}

theorem decodes_begin
    {finalLsn commitTime xid : Nat}
    (agrees : Agrees parser history)
    (valid : (Message.begin finalLsn commitTime xid).Valid) :
    Decodes memory parser history (.begin finalLsn commitTime xid) := by
  obtain ⟨_, bound, _⟩ := valid
  refine ⟨{ parser with
    pendingCommitTimestampUnixUs :=
      (commitTime + pgEpochOffsetUs) % 2 ^ 64 },
    ⟨agrees.relations, rfl⟩, ?_⟩
  have skipped : (toBytes 8 finalLsn ++ (toBytes 8 commitTime ++
      toBytes 4 xid)).drop 8 = toBytes 8 commitTime ++ toBytes 4 xid := by
    rw [List.drop_append_of_le_length (by simp)]
    simp
  simp only [Message.denotes, Message.encode, List.cons_append,
    List.append_assoc, parse_cons]
  simp +decide only [PgOutputParser.parseBody, if_true]
  have handled : parser.handleBegin.run
      (toBytes 8 finalLsn ++ (toBytes 8 commitTime ++ toBytes 4 xid)) =
      .ok ({ parser with
        pendingCommitTimestampUnixUs :=
          (commitTime + pgEpochOffsetUs) % 2 ^ 64 }, toBytes 4 xid) := by
    simp only [PgOutputParser.handleBegin, List.length_append,
      length_toBytes, skipped]
    rw [if_neg (by decide)]
    exact Reader.bind_of_ok (readU64_encode bound _)
  rw [Reader.bind_of_ok handled]
  rfl

theorem Agrees.remember
    (agrees : Agrees parser history)
    (layout : RelationLayout) :
    Agrees (parser.remember layout.info) (.relation layout :: history) where
  relations := by
    intro oid
    simp only [PgOutputParser.remember, RelationLayout.info, latestRelation]
    by_cases same : oid = layout.oid
    · simp [same, RelationLayout.info]
    · simp [same, Ne.symm same, agrees.relations]
  timestamp := agrees.timestamp

theorem decodes_relation
    {layout : RelationLayout}
    (agrees : Agrees parser history)
    (valid : layout.Valid)
    (met : memory (.columnNames layout.columns.length) = true) :
    Decodes memory parser history (.relation layout) := by
  refine ⟨_, agrees.remember layout, ?_⟩
  have handled := handleRelation_encode valid met parser []
  rw [List.append_nil] at handled
  simp only [Message.denotes, Message.encode, parse_cons]
  simp +decide only [PgOutputParser.parseBody, if_true, if_false]
  rw [Reader.bind_of_ok handled]
  rfl

theorem decodes_truncate
    {options : UInt8}
    {oids : List Nat}
    (agrees : Agrees parser history)
    (valid : (Message.truncate options oids).Valid)
    (met : memory (.events oids.length) = true) :
    Decodes memory parser history (.truncate options oids) := by
  refine ⟨parser, ⟨agrees.relations, agrees.timestamp⟩, ?_⟩
  have events := readTruncated_encode agrees valid.2 []
  rw [List.append_nil] at events
  simp only [Message.denotes, Message.encode, List.cons_append, parse_cons]
  simp +decide only [PgOutputParser.parseBody, if_true, if_false,
    PgOutputParser.handleTruncate]
  rw [Reader.bind_of_ok]
  · rfl
  · rw [Reader.bind_of_ok (readU32_encode valid.1 _),
      Reader.bind_of_ok (readU8_cons _ _),
      Reader.bind_of_ok (reserve_of_met met _)]
    exact events

/-- A change is decoded when the relation it names is known and the rest of it
can be read with that relation. -/
theorem decodes_change
    {message : Message}
    {kind : UInt8}
    {oid : Nat}
    {rest : List UInt8}
    {missing : String}
    {next : RelationInfo → Reader ChangeEvent}
    {event : RelationLayout → ChangeEvent}
    (agrees : Agrees parser history)
    (unchanged : Agrees parser (message :: history))
    (bound : oid < 2 ^ 32)
    (encoded : message.encode = kind :: (toBytes 4 oid ++ rest))
    (denotes : message.denotes history =
      match latestRelation oid history with
      | none => .error missing
      | some layout => .ok (some [event layout]))
    (body : parser.parseBody memory kind = do
      let event ← parser.findRelation missing >>= next
      return (parser, some [event]))
    (reads : ∀ layout, (next layout.info).run rest = .ok (event layout, [])) :
    Decodes memory parser history message := by
  refine ⟨parser, unchanged, ?_⟩
  have found := findRelation_encode agrees bound missing rest
  rw [denotes, encoded, parse_cons, body]
  cases known : latestRelation oid history with
  | none =>
      rw [known] at found
      rw [Reader.bind_of_error (Reader.bind_of_error found)]
      exact ⟨rfl, rfl⟩
  | some layout =>
      rw [known] at found
      rw [Reader.bind_of_ok ((Reader.bind_of_ok found).trans (reads layout))]
      rfl

theorem decodes_insert
    {oid : Nat}
    {new : List Field}
    (agrees : Agrees parser history)
    (valid : (Message.insert oid new).Valid)
    (met : memory.Meets (new.flatMap Field.requests)) :
    Decodes memory parser history (.insert oid new) := by
  refine decodes_change agrees ⟨agrees.relations, agrees.timestamp⟩ valid.1
    rfl rfl rfl fun layout => ?_
  have tuple := decodeTuple_encode valid.2 met layout.info .insert []
  rw [List.append_nil] at tuple
  rw [Reader.bind_of_ok (readU8_cons _ _), Reader.bind_of_ok tuple,
    PgOutputParser.changeEvent, agrees.timestamp]
  rfl

/-- The old tuple of an Update, and the tag of the new one behind it. -/
theorem readOldTuple_encode
    {old : Option OldTuple}
    (valid : ∀ tuple ∈ old, tuple.Valid)
    (met : memory.Meets ((old.map OldTuple.requests).getD []))
    (layout : RelationLayout)
    (rest : List UInt8) :
    ∃ first body,
      (old.map OldTuple.encode).getD [] ++ tag 'N' :: rest = first :: body ∧
      (readOldTuple memory layout.info first).run body =
        .ok ((old.map fun tuple =>
          denoteTuple layout .updateOld tuple.fields, tag 'N'), rest) := by
  cases old with
  | none => exact ⟨tag 'N', rest, rfl, by simp +decide [readOldTuple]⟩
  | some tuple =>
      have tupleValid := valid tuple rfl
      cases tuple with
      | key fields =>
          refine ⟨tag 'K', encodeTuple fields ++ tag 'N' :: rest, rfl, ?_⟩
          simp +decide only [readOldTuple, if_true]
          rw [Reader.bind_of_ok
              (decodeTuple_encode tupleValid met layout.info _ _),
            Reader.bind_of_ok (readU8_cons _ _)]
          rfl
      | full fields =>
          refine ⟨tag 'O', encodeTuple fields ++ tag 'N' :: rest, rfl, ?_⟩
          simp +decide only [readOldTuple, if_true]
          rw [Reader.bind_of_ok
              (decodeTuple_encode tupleValid met layout.info _ _),
            Reader.bind_of_ok (readU8_cons _ _)]
          rfl

theorem decodes_update
    {oid : Nat}
    {old : Option OldTuple}
    {new : List Field}
    (agrees : Agrees parser history)
    (valid : (Message.update oid old new).Valid)
    (met : memory.Meets (Message.update oid old new).requests) :
    Decodes memory parser history (.update oid old new) := by
  have encoded : (Message.update oid old new).encode =
      tag 'U' :: (toBytes 4 oid ++ ((old.map OldTuple.encode).getD [] ++
        tag 'N' :: encodeTuple new)) := by
    simp only [Message.encode, List.cons_append, List.append_assoc]
  rw [Message.requests, Memory.Meets, List.forall_mem_append] at met
  refine decodes_change agrees ⟨agrees.relations, agrees.timestamp⟩ valid.1
    encoded rfl rfl fun layout => ?_
  obtain ⟨first, body, split, oldTuple⟩ :=
    readOldTuple_encode valid.2.1 met.1 layout (encodeTuple new)
  have tuple := decodeTuple_encode valid.2.2 met.2 layout.info .updateNew []
  rw [List.append_nil] at tuple
  have newTuple :
      (readNewTuple memory layout.info (tag 'N')).run (encodeTuple new) =
        .ok (some (denoteTuple layout .updateNew new), []) := by
    simp only [readNewTuple, if_true]
    exact Reader.bind_of_ok tuple
  rw [split, Reader.bind_of_ok (readU8_cons _ _), Reader.bind_of_ok oldTuple,
    Reader.bind_of_ok newTuple, PgOutputParser.changeEvent, agrees.timestamp]
  rfl

theorem decodes_delete
    {oid : Nat}
    {old : OldTuple}
    (agrees : Agrees parser history)
    (valid : (Message.delete oid old).Valid)
    (met : memory.Meets old.requests) :
    Decodes memory parser history (.delete oid old) := by
  obtain ⟨first, split⟩ : ∃ first,
      old.encode = first :: encodeTuple old.fields := by
    cases old with
    | key fields => exact ⟨_, rfl⟩
    | full fields => exact ⟨_, rfl⟩
  have fieldsValid : TupleValid old.fields := by
    cases old <;> exact valid.2
  have fieldsMet : memory.Meets (old.fields.flatMap Field.requests) := by
    cases old <;> exact met
  refine decodes_change agrees ⟨agrees.relations, agrees.timestamp⟩ valid.1
    rfl rfl rfl fun layout => ?_
  have tuple :=
    decodeTuple_encode fieldsValid fieldsMet layout.info .delete []
  rw [List.append_nil] at tuple
  rw [split, Reader.bind_of_ok (readU8_cons _ _), Reader.bind_of_ok tuple,
    PgOutputParser.changeEvent, agrees.timestamp]
  rfl

/-- Every message decodes to what it denotes. -/
theorem decodes_message
    {message : Message}
    (agrees : Agrees parser history)
    (valid : message.Valid)
    (met : memory.Meets message.requests) :
    Decodes memory parser history message := by
  cases message with
  | begin finalLsn commitTime xid => exact decodes_begin agrees valid
  | commit flags commitLsn endLsn commitTime =>
      refine ⟨parser, ⟨agrees.relations, agrees.timestamp⟩, ?_⟩
      simp only [Message.denotes, Message.encode, List.cons_append,
        parse_cons]
      simp +decide only [PgOutputParser.parseBody, if_true, if_false]
      rw [agrees.timestamp]
      rfl
  | relation layout =>
      exact decodes_relation agrees valid (met _ List.mem_cons_self)
  | type oid schema name =>
      exact ⟨parser, ⟨agrees.relations, agrees.timestamp⟩, rfl⟩
  | origin lsn name =>
      exact ⟨parser, ⟨agrees.relations, agrees.timestamp⟩, rfl⟩
  | insert oid new => exact decodes_insert agrees valid met
  | update oid old new => exact decodes_update agrees valid met
  | delete oid old => exact decodes_delete agrees valid met
  | truncate options oids =>
      exact decodes_truncate agrees valid (met _ List.mem_cons_self)

end Messages

/-! ## Frames and streams -/

/-- The numbers of a header are read back, whatever the payload. -/
theorem parseXlogdataHeader_append
    {walStart walEnd sendTime : Nat}
    (startBound : walStart < 2 ^ 64)
    (endBound : walEnd < 2 ^ 64)
    (timeBound : sendTime < 2 ^ 64)
    (kind : UInt8)
    (payload : List UInt8) :
    parseXlogdataHeader (kind :: (toBytes 8 walStart ++ (toBytes 8 walEnd ++
      (toBytes 8 sendTime ++ payload)))) =
        .ok (some { walStart, walEnd, sendTime, payload }) := by
  have numbers : readXlogdataNumbers.run (toBytes 8 walStart ++
      (toBytes 8 walEnd ++ (toBytes 8 sendTime ++ payload))) =
        .ok ((walStart, walEnd, sendTime), payload) := by
    rw [readXlogdataNumbers, Reader.bind_of_ok (readU64_encode startBound _),
      Reader.bind_of_ok (readU64_encode endBound _),
      Reader.bind_of_ok (readU64_encode timeBound _)]
    rfl
  rw [parseXlogdataHeader, if_neg (by simp; omega), List.drop_succ_cons,
    List.drop_zero, numbers]
  rfl

theorem parseXlogdataHeader_encode
    {frame : Frame}
    (valid : frame.Valid) :
    parseXlogdataHeader frame.encode =
      .ok (some {
        walStart := frame.walStart
        walEnd := frame.walEnd
        sendTime := frame.sendTime
        payload := frame.message.encode }) := by
  simp only [Frame.encode, List.cons_append, List.append_assoc]
  exact parseXlogdataHeader_append valid.walStart valid.walEnd valid.sendTime
    _ _

/-- One frame has the effect it denotes and leaves the decoder in agreement
with the longer history. -/
theorem handleFrame_encode
    {memory : Memory}
    {state : ReplicationState}
    {history : List Message}
    {frame : Frame}
    (agrees : Agrees state.parser history)
    (valid : frame.Valid)
    (met : memory.Meets frame.message.requests) :
    ∃ next,
      handleFrame memory state frame.encode = .ok (next, frame.denotes history) ∧
      Agrees next.parser (frame.message :: history) := by
  obtain ⟨next, after, outcome⟩ := decodes_message agrees valid.message met
  have kind : frame.encode.head? = some (tag 'w') := rfl
  simp only [handleFrame, kind, parseXlogdataHeader_encode valid]
  simp +decide only [if_true, if_false, Frame.denotes]
  cases denoted : frame.message.denotes history with
  | error problem =>
      rw [denoted] at outcome
      obtain ⟨rfl, parsed⟩ := outcome
      rw [parsed]
      exact ⟨_, rfl, after⟩
  | ok events =>
      rw [denoted] at outcome
      rw [show state.parser.parse memory frame.message.encode = _ from outcome]
      exact ⟨_, rfl, after⟩

theorem drain_encode_of_agrees
    {memory : Memory}
    {state : ReplicationState}
    {history : List Message}
    {frames : List Frame}
    (agrees : Agrees state.parser history)
    (valid : ∀ frame ∈ frames, frame.Valid)
    (met : ∀ frame ∈ frames, memory.Meets frame.message.requests) :
    ∃ final,
      drainAvailableMessages memory state (frames.map Frame.encode) =
        .ok (final, denoteStream history frames) := by
  induction frames generalizing state history with
  | nil => exact ⟨state, rfl⟩
  | cons frame frames inductionHypothesis =>
      rw [List.forall_mem_cons] at valid met
      obtain ⟨next, handled, after⟩ :=
        handleFrame_encode agrees valid.1 met.1
      obtain ⟨final, drained⟩ := inductionHypothesis after valid.2 met.2
      refine ⟨final, ?_⟩
      simp only [List.map_cons, drainAvailableMessages, handled, drained,
        denoteStream]

/-- No frame before `index` carries a Relation message for an OID. -/
def NoEarlierRelation (frames : List Frame) (index oid : Nat) : Prop :=
  ∀ earlier ∈ frames.take index, ∀ layout,
    earlier.message = .relation layout → layout.oid ≠ oid

theorem latestRelation_take_eq_none_iff
    {frames : List Frame}
    {index oid : Nat} :
    latestRelation oid (((frames.take index).map Frame.message).reverse ++ [])
        = none ↔ NoEarlierRelation frames index oid := by
  rw [latestRelation_eq_none_iff, NoEarlierRelation]
  simp only [List.append_nil, List.mem_reverse, List.mem_map]
  constructor
  · exact fun absent earlier member layout same =>
      absent layout ⟨earlier, member, same⟩
  · rintro absent layout ⟨earlier, member, same⟩
    exact absent earlier member layout same

/-- A stream of well-formed frames decodes, frame by frame, to what it denotes,
with a decode error exactly at the changes of undescribed relations. -/
theorem drainAvailableMessages_encode
    (frames : List Frame)
    (valid : ∀ frame ∈ frames, frame.Valid) :
    ∃ final effects,
      drainAvailableMessages .unlimited {} (frames.map Frame.encode) =
        .ok (final, effects) ∧
      effects = denoteStream [] frames ∧
      ∀ index frame effect,
        frames[index]? = some frame → effects[index]? = some effect →
          (effect.IsError ↔
            ∃ oid, frame.message.target? = some oid ∧
              NoEarlierRelation frames index oid) := by
  have initial : Agrees ({} : ReplicationState).parser [] := agrees_initial
  obtain ⟨final, drained⟩ := drain_encode_of_agrees initial valid
    fun frame _ => Memory.meets_unlimited frame.message.requests
  refine ⟨final, _, drained, rfl, ?_⟩
  intro index frame effect present produced
  rw [denoteStream_getElem?, present, Option.map_some] at produced
  cases produced
  rw [Frame.denotes_isError_iff, Message.denotes_error_iff]
  simp only [latestRelation_take_eq_none_iff]

/-- A relation `docs` with one column. -/
def docsLayout : RelationLayout where
  oid := 16401
  schema := "public".toList.map tag
  table := "docs".toList.map tag
  replicaIdentity := tag 'd'
  columns := [⟨1, "id".toList.map tag, 23, 4294967295⟩]

theorem docsLayout_valid : docsLayout.Valid := by
  refine ⟨by decide, by unfold NameValid; decide, by unfold NameValid; decide,
    by decide, ?_⟩
  simp only [docsLayout, List.mem_singleton, forall_eq]
  exact ⟨by unfold NameValid; decide, by decide, by decide⟩

/-- A transaction that inserts into a described relation and deletes from an
undescribed one. -/
def sampleFrames : List Frame :=
  [⟨100, 100, 0, .begin 180 7 900⟩, ⟨110, 110, 0, .relation docsLayout⟩,
    ⟨120, 120, 0, .insert 16401 [.text [57, 50]]⟩,
    ⟨130, 130, 0, .delete 16402 (.key [.text [57, 50], .null])⟩,
    ⟨180, 180, 0, .commit 0 180 190 7⟩]

theorem drainAvailableMessages_sampleFrames :
    (∀ frame ∈ sampleFrames, frame.Valid) ∧
    ∃ final effects,
      drainAvailableMessages .unlimited {} (sampleFrames.map Frame.encode) =
        .ok (final, effects) ∧
      effects = denoteStream [] sampleFrames ∧
      ∀ index frame effect,
        sampleFrames[index]? = some frame →
        effects[index]? = some effect →
          (effect.IsError ↔
            ∃ oid, frame.message.target? = some oid ∧
              NoEarlierRelation sampleFrames index oid) := by
  have valid : ∀ frame ∈ sampleFrames, frame.Valid := by
    simp only [sampleFrames, List.forall_mem_cons]
    refine ⟨⟨by decide, by decide, by decide, by simp [Message.Valid]⟩,
      ⟨by decide, by decide, by decide, docsLayout_valid⟩,
      ⟨by decide, by decide, by decide, by decide, by decide, ?_⟩,
      ⟨by decide, by decide, by decide, by decide, by decide, ?_⟩,
      ⟨by decide, by decide, by decide, by simp [Message.Valid]⟩, by simp⟩
    · simp [Field.Valid]
    · simp [Field.Valid]
  exact ⟨valid, drainAvailableMessages_encode sampleFrames valid⟩

end Wire
end Walkrie
