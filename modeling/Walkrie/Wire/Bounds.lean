import Walkrie.Wire.Decode

/-!
# When handling a frame stays inside the frame

The decoder trusts the counts, lengths and terminators of the message it
reads.  It stays inside the message exactly when everything they announce is
there, or when it stops before: at a relation it does not know, at a column
kind it does not know, at an Update without a new tuple, or because it does
not get the memory that was announced.
-/

namespace Walkrie
namespace Wire

open BigEndian

/-! ## What can be read -/

/-- Kinds of tuple column the decoder knows. -/
def columnKinds : List UInt8 :=
  [tag 'n', tag 'u', tag 't']

/-- A column at which decoding a tuple stops: one of an unknown kind, or a
text there is no memory for. -/
inductive ColumnStops (memory : Memory) : List UInt8 → Prop
  | unknown
      {kind : UInt8}
      (unknown : kind ∉ columnKinds) :
      ColumnStops memory [kind]
  | refused
      {length : Nat}
      (bound : length < 2 ^ 32)
      (refused : memory (.textValue length) = false) :
      ColumnStops memory (tag 't' :: toBytes 4 length)

/-- A column that is there, and for which there is memory. -/
def Field.Fits (memory : Memory) (field : Field) : Prop :=
  field.Valid ∧ memory.Meets field.requests

/-- A tuple that is complete up to a column at which decoding stops. -/
def TupleBroken (memory : Memory) (input : List UInt8) : Prop :=
  ∃ (count : Nat) (fields : List Field) (stop rest : List UInt8),
    count < 2 ^ 16 ∧ fields.length < count ∧
    (∀ field ∈ fields, field.Fits memory) ∧ ColumnStops memory stop ∧
    input =
      toBytes 2 count ++ (fields.flatMap Field.encode ++ (stop ++ rest))

/-- A tuple that is complete, with memory for all of it. -/
structure TupleFits (memory : Memory) (fields : List Field) : Prop where
  count : fields.length < 2 ^ 16
  fields : ∀ field ∈ fields, field.Fits memory

/-- A tuple that is complete, or complete up to where decoding stops. -/
inductive TupleReadable (memory : Memory) : List UInt8 → Prop
  | complete
      {fields : List Field}
      (rest : List UInt8)
      (fits : TupleFits memory fields) :
      TupleReadable memory (encodeTuple fields ++ rest)
  | broken
      {input : List UInt8}
      (broken : TupleBroken memory input) :
      TupleReadable memory input

/-- Tags of an old tuple. -/
def oldTags : List UInt8 :=
  [tag 'K', tag 'O']

/-- The tuples of an Update, as far as its tags make the decoder read them. -/
inductive UpdateReadable (memory : Memory) : List UInt8 → Prop
  | neither
      {first : UInt8}
      (rest : List UInt8)
      (notOld : first ∉ oldTags)
      (notNew : first ≠ tag 'N') :
      UpdateReadable memory (first :: rest)
  | new
      {tuple : List UInt8}
      (readable : TupleReadable memory tuple) :
      UpdateReadable memory (tag 'N' :: tuple)
  | brokenOld
      {first : UInt8}
      {tuple : List UInt8}
      (old : first ∈ oldTags)
      (broken : TupleBroken memory tuple) :
      UpdateReadable memory (first :: tuple)
  | old
      {first next : UInt8}
      {fields : List Field}
      (rest : List UInt8)
      (old : first ∈ oldTags)
      (fits : TupleFits memory fields)
      (notNew : next ≠ tag 'N') :
      UpdateReadable memory (first :: (encodeTuple fields ++ next :: rest))
  | both
      {first : UInt8}
      {fields : List Field}
      {tuple : List UInt8}
      (old : first ∈ oldTags)
      (fits : TupleFits memory fields)
      (readable : TupleReadable memory tuple) :
      UpdateReadable memory
        (first :: (encodeTuple fields ++ tag 'N' :: tuple))

/-- What a Relation message has before its columns. -/
def relationHead (oid : Nat) (schema table : List UInt8) (identity : UInt8)
    (count : Nat) : List UInt8 :=
  toBytes 4 oid ++ (cstr schema ++ (cstr table ++
    identity :: toBytes 2 count))

/-- A message that holds everything its own counts, lengths and terminators
make the decoder read, or that stops it before. -/
inductive Readable (memory : Memory) (parser : PgOutputParser) :
    List UInt8 → Prop
  | empty : Readable memory parser []
  | skipped
      {kind : UInt8}
      (body : List UInt8)
      (other : kind ∉ [tag 'R', tag 'T', tag 'I', tag 'U', tag 'D']) :
      Readable memory parser (kind :: body)
  | relation
      {layout : RelationLayout}
      (rest : List UInt8)
      (valid : layout.Valid) :
      Readable memory parser (tag 'R' :: (layout.encode ++ rest))
  | relationRefused
      {oid count : Nat}
      {schema table : List UInt8}
      {identity : UInt8}
      (rest : List UInt8)
      (oidBound : oid < 2 ^ 32)
      (names : NameValid schema ∧ NameValid table)
      (countBound : count < 2 ^ 16)
      (refused : memory (.columnNames count) = false) :
      Readable memory parser
        (tag 'R' :: (relationHead oid schema table identity count ++ rest))
  | truncate
      {options : UInt8}
      {oids : List Nat}
      (rest : List UInt8)
      (valid : (Message.truncate options oids).Valid) :
      Readable memory parser (tag 'T' :: (toBytes 4 oids.length ++
        options :: (oids.flatMap (toBytes 4) ++ rest)))
  | truncateRefused
      {options : UInt8}
      {count : Nat}
      (rest : List UInt8)
      (bound : count < 2 ^ 32)
      (refused : memory (.events count) = false) :
      Readable memory parser (tag 'T' :: (toBytes 4 count ++
        options :: rest))
  | unknown
      {kind : UInt8}
      {oid : Nat}
      (rest : List UInt8)
      (change : kind ∈ [tag 'I', tag 'U', tag 'D'])
      (bound : oid < 2 ^ 32)
      (absent : parser.relations oid = none) :
      Readable memory parser (kind :: (toBytes 4 oid ++ rest))
  | row
      {kind mark : UInt8}
      {oid : Nat}
      {rel : RelationInfo}
      {tuple : List UInt8}
      (change : kind ∈ [tag 'I', tag 'D'])
      (bound : oid < 2 ^ 32)
      (known : parser.relations oid = some rel)
      (readable : TupleReadable memory tuple) :
      Readable memory parser (kind :: (toBytes 4 oid ++ mark :: tuple))
  | update
      {oid : Nat}
      {rel : RelationInfo}
      {tuples : List UInt8}
      (bound : oid < 2 ^ 32)
      (known : parser.relations oid = some rel)
      (readable : UpdateReadable memory tuples) :
      Readable memory parser (tag 'U' :: (toBytes 4 oid ++ tuples))

variable {memory : Memory}

/-! ## Fields -/

theorem inRange_readU8_iff {input : List UInt8} :
    Reader.InRange readU8 input ↔ ∃ head rest, input = head :: rest := by
  rw [readU8, Reader.quiet_byte.inRange_iff]
  simp only [Reader.byte_eq_ok_iff]

theorem inRange_readU16_iff {input : List UInt8} :
    Reader.InRange readU16 input ↔
      ∃ value rest, value < 2 ^ 16 ∧ input = toBytes 2 value ++ rest := by
  rw [quiet_readU16.inRange_iff]
  simp only [readU16_eq_ok_iff]

theorem inRange_readU32_iff {input : List UInt8} :
    Reader.InRange readU32 input ↔
      ∃ value rest, value < 2 ^ 32 ∧ input = toBytes 4 value ++ rest := by
  rw [quiet_readU32.inRange_iff]
  simp only [readU32_eq_ok_iff]

/-- After a field that is there, what matters is the rest. -/
theorem inRange_bind_of_ok
    {α β : Type}
    {reader : Reader α}
    {next : α → Reader β}
    {input rest : List UInt8}
    {value : α}
    (read : reader.run input = .ok (value, rest)) :
    Reader.InRange (reader >>= next) input ↔
      Reader.InRange (next value) rest := by
  unfold Reader.InRange
  rw [Reader.bind_of_ok read]

theorem readColumnNames_eq_ok_iff
    {count : Nat}
    {input rest : List UInt8}
    {names : List String} :
    (readColumnNames count).run input = .ok (names, rest) ↔
      ∃ columns : List ColumnLayout, columns.length = count ∧
        (∀ column ∈ columns, column.Valid) ∧
        names = columns.map (fun column => text column.name) ∧
        input = columns.flatMap ColumnLayout.encode ++ rest := by
  constructor
  · induction count generalizing input names with
    | zero =>
        intro read
        cases read
        exact ⟨[], rfl, by simp, rfl, rfl⟩
    | succ count inductionHypothesis =>
        intro read
        simp only [readColumnNames, readU8, Reader.bind_eq_ok_iff,
          Reader.byte_eq_ok_iff, readCstr_eq_ok_iff, readU32_eq_ok_iff,
          Reader.run_pure, Except.ok.injEq, Prod.mk.injEq] at read
        obtain ⟨flags, _, rfl, _, _, ⟨name, absent, rfl, rfl⟩, typeOid, _,
          ⟨oidBound, rfl⟩, typeModifier, _, ⟨modifierBound, rfl⟩, others, _,
          more, rfl, rfl⟩ := read
        obtain ⟨columns, rfl, valid, rfl, rfl⟩ := inductionHypothesis more
        refine ⟨⟨flags, name, typeOid, typeModifier⟩ :: columns, rfl, ?_,
          rfl, ?_⟩
        · rw [List.forall_mem_cons]
          exact ⟨⟨absent, oidBound, modifierBound⟩, valid⟩
        · simp [ColumnLayout.encode, cstr]
  · rintro ⟨columns, rfl, valid, rfl, rfl⟩
    exact readColumnNames_encode valid rest

theorem quiet_readColumnNames (count : Nat) :
    Reader.Quiet (readColumnNames count) := by
  induction count with
  | zero => exact Reader.quiet_pure _
  | succ count inductionHypothesis =>
      exact Reader.quiet_byte.bind fun _ => quiet_readCstr.bind fun _ =>
        quiet_readU32.bind fun _ => quiet_readU32.bind fun _ =>
          inductionHypothesis.bind fun _ => Reader.quiet_pure _

/-- Behind a request, what matters is the rest if it is met. -/
theorem inRange_reserve_bind_iff
    {β : Type}
    {request : Request}
    {next : Unit → Reader β}
    {input : List UInt8} :
    Reader.InRange (reserve memory request >>= next) input ↔
      (memory request = true → Reader.InRange (next ()) input) := by
  cases met : memory request with
  | false =>
      have stopped : (reserve memory request >>= next).run input =
          .error (.thrown "std::bad_alloc") :=
        Reader.bind_of_error (reserve_of_refused met input)
      simp [Reader.InRange, stopped]
  | true =>
      rw [inRange_bind_of_ok (reserve_of_met met input)]
      exact ⟨fun inRange _ => inRange, fun inRange => inRange rfl⟩

theorem inRange_readColumnNames_iff
    {β : Type}
    {count : Nat}
    {result : List String → β}
    {input : List UInt8} :
    Reader.InRange (do
        let names ← readColumnNames count
        return result names) input ↔
      ∃ (columns : List ColumnLayout) (rest : List UInt8),
        columns.length = count ∧ (∀ column ∈ columns, column.Valid) ∧
        input = columns.flatMap ColumnLayout.encode ++ rest := by
  rw [(quiet_readColumnNames count).inRange_bind_iff]
  simp only [readColumnNames_eq_ok_iff, Reader.inRange_pure, and_true]
  constructor
  · rintro ⟨_, rest, columns, counted, valid, _, same⟩
    exact ⟨columns, rest, counted, valid, same⟩
  · rintro ⟨columns, rest, counted, valid, same⟩
    exact ⟨_, rest, columns, counted, valid, rfl, same⟩

/-- The fields of a Relation message up to its columns are there, and the
columns too if there is memory for them. -/
theorem inRange_handleRelation_iff
    {parser : PgOutputParser}
    {input : List UInt8} :
    Reader.InRange (parser.handleRelation memory) input ↔
      ∃ (oid count : Nat) (schema table : List UInt8) (identity : UInt8)
        (rest : List UInt8),
        oid < 2 ^ 32 ∧ (NameValid schema ∧ NameValid table) ∧
        count < 2 ^ 16 ∧
        input = relationHead oid schema table identity count ++ rest ∧
        (memory (.columnNames count) = true →
          ∃ (columns : List ColumnLayout) (tail : List UInt8),
            columns.length = count ∧ (∀ column ∈ columns, column.Valid) ∧
            rest = columns.flatMap ColumnLayout.encode ++ tail) := by
  simp only [PgOutputParser.handleRelation, readU8,
    quiet_readU32.inRange_bind_iff, quiet_readCstr.inRange_bind_iff,
    Reader.quiet_byte.inRange_bind_iff, quiet_readU16.inRange_bind_iff,
    inRange_reserve_bind_iff, inRange_readColumnNames_iff,
    readU32_eq_ok_iff, readCstr_eq_ok_iff, Reader.byte_eq_ok_iff,
    readU16_eq_ok_iff]
  constructor
  · rintro ⟨oid, _, ⟨oidBound, rfl⟩, _, _, ⟨schema, schemaValid, rfl, rfl⟩,
      _, _, ⟨table, tableValid, rfl, rfl⟩, identity, _, rfl, count, rest,
      ⟨countBound, rfl⟩, columns⟩
    exact ⟨oid, count, schema, table, identity, rest, oidBound,
      ⟨schemaValid, tableValid⟩, countBound,
      by simp [relationHead, cstr], columns⟩
  · rintro ⟨oid, count, schema, table, identity, rest, oidBound,
      ⟨schemaValid, tableValid⟩, countBound, rfl, columns⟩
    exact ⟨oid, _, ⟨oidBound, by simp [relationHead, cstr]⟩, _, _,
      ⟨schema, schemaValid, rfl, rfl⟩, _, _, ⟨table, tableValid, rfl, rfl⟩,
      identity, _, rfl, count, rest, ⟨countBound, rfl⟩, columns⟩

/-! ## Tuples -/

/-- The reader throws. -/
def Throws {α : Type} (reader : Reader α) (input : List UInt8) : Prop :=
  ∃ message, reader.run input = .error (.thrown message)

theorem Throws.bind
    {α β : Type}
    {reader : Reader α}
    {input : List UInt8}
    (throws : Throws reader input)
    (next : α → Reader β) :
    Throws (reader >>= next) input :=
  ⟨_, Reader.bind_of_error throws.choose_spec⟩

theorem Throws.inRange
    {α : Type}
    {reader : Reader α}
    {input : List UInt8}
    (throws : Throws reader input) :
    Reader.InRange reader input := by
  obtain ⟨message, stopped⟩ := throws
  simp [Reader.InRange, stopped]

theorem throws_bind_of_ok
    {α β : Type}
    {reader : Reader α}
    {next : α → Reader β}
    {input rest : List UInt8}
    {value : α}
    (read : reader.run input = .ok (value, rest))
    (throws : Throws (next value) rest) :
    Throws (reader >>= next) input :=
  ⟨_, (Reader.bind_of_ok read).trans throws.choose_spec⟩

theorem readColumn_stops
    {stop : List UInt8}
    (stops : ColumnStops memory stop)
    (name : String)
    (rest : List UInt8) :
    Throws (readColumn memory name) (stop ++ rest) := by
  cases stops with
  | unknown unknown =>
      simp only [columnKinds, List.mem_cons, List.not_mem_nil, or_false,
        not_or] at unknown
      refine throws_bind_of_ok (readU8_cons _ _) ?_
      rw [if_neg unknown.1, if_neg unknown.2.1, if_neg unknown.2.2]
      exact ⟨_, rfl⟩
  | refused bound refused =>
      refine throws_bind_of_ok (readU8_cons _ _) ?_
      rw [if_neg (by decide), if_neg (by decide), if_pos rfl]
      refine throws_bind_of_ok (readU32_encode bound rest) ?_
      exact Throws.bind ⟨_, reserve_of_refused refused rest⟩ _

theorem readColumns_stops
    {count : Nat}
    {fields : List Field}
    {stop : List UInt8}
    (fewer : fields.length < count)
    (fits : ∀ field ∈ fields, field.Fits memory)
    (stops : ColumnStops memory stop)
    (names : List String)
    (rest : List UInt8) :
    Throws (readColumns memory count names)
      (fields.flatMap Field.encode ++ (stop ++ rest)) := by
  induction fields generalizing count names with
  | nil =>
      cases count with
      | zero => cases fewer
      | succ count => exact (readColumn_stops stops _ rest).bind _
  | cons field fields inductionHypothesis =>
      obtain ⟨first, others⟩ := List.forall_mem_cons.mp fits
      cases count with
      | zero => cases fewer
      | succ count =>
          rw [List.flatMap_cons, List.append_assoc, readColumns]
          refine throws_bind_of_ok
            (readColumn_encode first.1 first.2 _ _) ?_
          exact (inductionHypothesis (Nat.lt_of_succ_lt_succ fewer) others
            _).bind _

/-- A column that is read in range is there with the memory for it, or stops
the decoder. -/
theorem readColumn_inRange
    {name : String}
    {input : List UInt8}
    (inRange : Reader.InRange (readColumn memory name) input) :
    (∃ (field : Field) (rest : List UInt8),
      field.Fits memory ∧ input = field.encode ++ rest) ∨
    ∃ stop rest, ColumnStops memory stop ∧ input = stop ++ rest := by
  cases input with
  | nil => exact absurd rfl inRange
  | cons kind rest =>
      by_cases known : kind ∈ columnKinds
      · simp only [columnKinds, List.mem_cons, List.not_mem_nil,
          or_false] at known
        rcases known with rfl | rfl | rfl
        · exact .inl ⟨.null, rest, ⟨trivial, by simp [Memory.Meets,
            Field.requests]⟩, rfl⟩
        · exact .inl ⟨.unchangedToast, rest, ⟨trivial, by simp [Memory.Meets,
            Field.requests]⟩, rfl⟩
        · rw [readColumn, inRange_bind_of_ok (readU8_cons _ _),
            if_neg (by decide), if_neg (by decide), if_pos rfl,
            quiet_readU32.inRange_bind_iff] at inRange
          obtain ⟨length, tail, read, more⟩ := inRange
          obtain ⟨bound, rfl⟩ := readU32_eq_ok_iff.mp read
          rw [inRange_reserve_bind_iff] at more
          cases met : memory (.textValue length) with
          | false =>
              exact .inr ⟨_, tail, .refused bound met, rfl⟩
          | true =>
              obtain ⟨value, rest, taken, _⟩ :=
                (Reader.quiet_bytes length).inRange_bind_iff.mp (more met)
              obtain ⟨rfl, rfl⟩ := Reader.bytes_eq_ok_iff.mp taken
              exact .inl ⟨.text value, rest, ⟨bound, by simpa
                [Memory.Meets, Field.requests] using met⟩,
                by simp [Field.encode]⟩
      · exact .inr ⟨[kind], rest, .unknown known, rfl⟩

/-- Columns are all there, or up to one that stops the decoder, if they are
read in range. -/
theorem readColumns_inRange
    {count : Nat}
    {names : List String}
    {input : List UInt8}
    (inRange : Reader.InRange (readColumns memory count names) input) :
    (∃ (fields : List Field) (rest : List UInt8),
      fields.length = count ∧ (∀ field ∈ fields, field.Fits memory) ∧
      input = fields.flatMap Field.encode ++ rest) ∨
    ∃ (fields : List Field) (stop rest : List UInt8),
      fields.length < count ∧ (∀ field ∈ fields, field.Fits memory) ∧
      ColumnStops memory stop ∧
      input = fields.flatMap Field.encode ++ (stop ++ rest) := by
  induction count generalizing names input with
  | zero => exact .inl ⟨[], input, rfl, by simp, rfl⟩
  | succ count inductionHypothesis =>
      rw [readColumns] at inRange
      rcases readColumn_inRange (Reader.inRange_bind.mp inRange).1
        with ⟨field, rest, fits, rfl⟩ | ⟨stop, rest, stops, rfl⟩
      · rw [inRange_bind_of_ok (readColumn_encode fits.1 fits.2 _ rest)]
          at inRange
        rcases inductionHypothesis (Reader.inRange_bind.mp inRange).1
          with ⟨fields, tail, rfl, others, rfl⟩ |
            ⟨fields, stop, tail, fewer, others, stops, rfl⟩
        · exact .inl ⟨field :: fields, tail, rfl,
            List.forall_mem_cons.mpr ⟨fits, others⟩, by simp⟩
        · exact .inr ⟨field :: fields, stop, tail,
            Nat.succ_lt_succ fewer,
            List.forall_mem_cons.mpr ⟨fits, others⟩, stops, by simp⟩
      · exact .inr ⟨[], stop, rest, Nat.succ_pos count, by simp, stops,
          rfl⟩

theorem decodeTuple_broken
    {input : List UInt8}
    (broken : TupleBroken memory input)
    (rel : RelationInfo)
    (kind : TupleKind) :
    Throws (decodeTuple memory rel kind) input := by
  obtain ⟨count, fields, stop, rest, bound, fewer, fits, stops, rfl⟩ :=
    broken
  refine throws_bind_of_ok (readU16_encode bound _) ?_
  exact (readColumns_stops fewer fits stops _ rest).bind _

theorem decodeTuple_fits
    {fields : List Field}
    (fits : TupleFits memory fields)
    (rel : RelationInfo)
    (kind : TupleKind)
    (rest : List UInt8) :
    (decodeTuple memory rel kind).run (encodeTuple fields ++ rest) =
      .ok (rel.row kind fields, rest) := by
  refine decodeTuple_encode
    ⟨fits.count, fun field member => (fits.fields field member).1⟩ ?_ rel
    kind rest
  intro request asked
  obtain ⟨field, member, asked⟩ := List.mem_flatMap.mp asked
  exact (fits.fields field member).2 request asked

theorem inRange_decodeTuple_iff
    {rel : RelationInfo}
    {kind : TupleKind}
    {input : List UInt8} :
    Reader.InRange (decodeTuple memory rel kind) input ↔
      TupleReadable memory input := by
  constructor
  · intro inRange
    obtain ⟨count, rest, bound, rfl⟩ :=
      inRange_readU16_iff.mp (Reader.inRange_bind.mp inRange).1
    rw [decodeTuple, inRange_bind_of_ok (readU16_encode bound rest)]
      at inRange
    rcases readColumns_inRange (Reader.inRange_bind.mp inRange).1 with
      ⟨fields, tail, rfl, fits, rfl⟩ |
        ⟨fields, stop, tail, fewer, fits, stops, rfl⟩
    · rw [← List.append_assoc]
      exact .complete tail ⟨bound, fits⟩
    · exact .broken ⟨count, fields, stop, tail, bound, fewer, fits, stops,
        rfl⟩
  · intro readable
    cases readable with
    | complete rest fits =>
        simp [Reader.InRange, decodeTuple_fits fits rel kind rest]
    | broken broken => exact (decodeTuple_broken broken rel kind).inRange

/-! ## Updates -/

theorem inRange_readNewTuple_iff
    {rel : RelationInfo}
    {next : UInt8}
    {input : List UInt8} :
    Reader.InRange (readNewTuple memory rel next) input ↔
      (next = tag 'N' → TupleReadable memory input) := by
  unfold readNewTuple
  split <;> rename_i new
  · rw [Reader.inRange_bind, inRange_decodeTuple_iff]
    exact ⟨fun both _ => both.1,
      fun readable => ⟨readable new, fun _ _ _ => Reader.inRange_pure _ _⟩⟩
  · exact ⟨fun _ same => absurd same new, fun _ => Reader.inRange_pure _ _⟩

theorem readOldTuple_announced
    {first : UInt8}
    (old : first ∈ oldTags)
    (rel : RelationInfo) :
    readOldTuple memory rel first = (do
      let oldRow ← decodeTuple memory rel .updateOld
      let next ← readU8
      return (some oldRow, next)) := by
  have announced : first = tag 'K' ∨ first = tag 'O' := by
    simpa [oldTags] using old
  rw [readOldTuple, if_pos announced]

theorem readOldTuple_complete
    {first next : UInt8}
    {fields : List Field}
    (old : first ∈ oldTags)
    (fits : TupleFits memory fields)
    (rel : RelationInfo)
    (rest : List UInt8) :
    (readOldTuple memory rel first).run
        (encodeTuple fields ++ next :: rest) =
      .ok ((some (rel.row .updateOld fields), next), rest) := by
  rw [readOldTuple_announced old,
    Reader.bind_of_ok (decodeTuple_fits fits rel _ _)]
  rfl

theorem readOldTuple_broken
    {first : UInt8}
    {tuple : List UInt8}
    (old : first ∈ oldTags)
    (broken : TupleBroken memory tuple)
    (rel : RelationInfo) :
    Throws (readOldTuple memory rel first) tuple := by
  rw [readOldTuple_announced old]
  exact (decodeTuple_broken broken rel _).bind _

theorem readOldTuple_absent
    {first : UInt8}
    (notOld : first ∉ oldTags)
    (rel : RelationInfo)
    (input : List UInt8) :
    (readOldTuple memory rel first).run input = .ok ((none, first), input) := by
  have silent : ¬(first = tag 'K' ∨ first = tag 'O') := by
    simpa [oldTags] using notOld
  rw [readOldTuple, if_neg silent]
  rfl

/-- An old tuple that is read in range is followed by a tag, or broken. -/
theorem readOldTuple_inRange
    {first : UInt8}
    {rel : RelationInfo}
    {input : List UInt8}
    (old : first ∈ oldTags)
    (inRange : Reader.InRange (readOldTuple memory rel first) input) :
    (∃ fields next rest, TupleFits memory fields ∧
      input = encodeTuple fields ++ next :: rest) ∨
        TupleBroken memory input := by
  rw [readOldTuple_announced old] at inRange
  cases inRange_decodeTuple_iff.mp (Reader.inRange_bind.mp inRange).1 with
  | complete rest fits =>
      rw [inRange_bind_of_ok (decodeTuple_fits fits rel _ _)] at inRange
      obtain ⟨next, tail, rfl⟩ :=
        inRange_readU8_iff.mp (Reader.inRange_bind.mp inRange).1
      exact .inl ⟨_, next, tail, fits, rfl⟩
  | broken broken => exact .inr broken

/-- The tuples of an Update behind its first tag, and what is made of them. -/
theorem inRange_updateTuples_iff
    {parser : PgOutputParser}
    {rel : RelationInfo}
    {first : UInt8}
    {input : List UInt8} :
    Reader.InRange (do
        let old ← readOldTuple memory rel first
        let newRow ← readNewTuple memory rel old.2
        return parser.changeEvent .update rel old.1 newRow) input ↔
      UpdateReadable memory (first :: input) := by
  have finish : ∀ {old : Option DecodedRow} {next : UInt8}
      {rest : List UInt8},
      Reader.InRange (do
        let newRow ← readNewTuple memory rel next
        return parser.changeEvent .update rel old newRow) rest ↔
      (next = tag 'N' → TupleReadable memory rest) := by
    intro old next rest
    rw [Reader.inRange_bind, inRange_readNewTuple_iff]
    exact ⟨And.left,
      fun readable => ⟨readable, fun _ _ _ => Reader.inRange_pure _ _⟩⟩
  constructor
  · intro inRange
    by_cases old : first ∈ oldTags
    · rcases readOldTuple_inRange old (Reader.inRange_bind.mp inRange).1 with
        ⟨fields, next, rest, fits, rfl⟩ | broken
      · rw [inRange_bind_of_ok (readOldTuple_complete old fits rel rest),
          finish] at inRange
        by_cases new : next = tag 'N'
        · subst new
          exact .both old fits (inRange rfl)
        · exact .old rest old fits new
      · exact .brokenOld old broken
    · rw [inRange_bind_of_ok (readOldTuple_absent old rel input), finish]
        at inRange
      by_cases new : first = tag 'N'
      · subst new
        exact .new (inRange rfl)
      · exact .neither input old new
  · intro readable
    cases readable with
    | neither _ notOld notNew =>
        rw [inRange_bind_of_ok (readOldTuple_absent notOld rel input), finish]
        exact fun new => absurd new notNew
    | new readable =>
        rw [inRange_bind_of_ok (readOldTuple_absent (by decide) rel input),
          finish]
        exact fun _ => readable
    | brokenOld old broken =>
        exact ((readOldTuple_broken old broken rel).bind _).inRange
    | old rest old fits notNew =>
        rw [inRange_bind_of_ok (readOldTuple_complete old fits rel rest),
          finish]
        exact fun new => absurd new notNew
    | both old fits readable =>
        rw [inRange_bind_of_ok (readOldTuple_complete old fits rel _),
          finish]
        exact fun _ => readable

/-! ## Messages -/

theorem readTruncated_eq_ok
    {parser : PgOutputParser}
    {count : Nat}
    {input rest : List UInt8}
    {events : List ChangeEvent}
    (read : (parser.readTruncated count).run input = .ok (events, rest)) :
    ∃ oids : List Nat, oids.length = count ∧ (∀ oid ∈ oids, oid < 2 ^ 32) ∧
      input = oids.flatMap (toBytes 4) ++ rest := by
  induction count generalizing input events with
  | zero =>
      cases read
      exact ⟨[], rfl, by simp, rfl⟩
  | succ count inductionHypothesis =>
      rw [PgOutputParser.readTruncated] at read
      obtain ⟨oid, middle, first, later⟩ := Reader.bind_eq_ok_iff.mp read
      obtain ⟨others, tail, more, last⟩ := Reader.bind_eq_ok_iff.mp later
      have same : tail = rest := by
        split at last <;> cases last <;> rfl
      subst same
      obtain ⟨bound, rfl⟩ := readU32_eq_ok_iff.mp first
      obtain ⟨oids, rfl, bounds, rfl⟩ := inductionHypothesis more
      exact ⟨oid :: oids, rfl, List.forall_mem_cons.mpr ⟨bound, bounds⟩,
        by simp⟩

theorem quiet_readTruncated (parser : PgOutputParser) (count : Nat) :
    Reader.Quiet (parser.readTruncated count) := by
  induction count with
  | zero => exact Reader.quiet_pure _
  | succ count inductionHypothesis =>
      refine quiet_readU32.bind fun oid => inductionHypothesis.bind fun _ => ?_
      cases parser.relations oid <;> exact Reader.quiet_pure _

theorem readTruncated_complete
    (parser : PgOutputParser)
    {oids : List Nat}
    (bounds : ∀ oid ∈ oids, oid < 2 ^ 32)
    (rest : List UInt8) :
    ∃ events,
      (parser.readTruncated oids.length).run
        (oids.flatMap (toBytes 4) ++ rest) = .ok (events, rest) := by
  induction oids with
  | nil => exact ⟨[], rfl⟩
  | cons oid oids inductionHypothesis =>
      obtain ⟨bound, others⟩ := List.forall_mem_cons.mp bounds
      obtain ⟨events, read⟩ := inductionHypothesis others
      rw [List.flatMap_cons, List.append_assoc, List.length_cons,
        PgOutputParser.readTruncated,
        Reader.bind_of_ok (readU32_encode bound _), Reader.bind_of_ok read]
      cases parser.relations oid with
      | none => exact ⟨_, rfl⟩
      | some rel => exact ⟨_, rfl⟩

theorem inRange_readTruncated_iff
    {parser : PgOutputParser}
    {count : Nat}
    {input : List UInt8} :
    Reader.InRange (parser.readTruncated count) input ↔
      ∃ (oids : List Nat) (rest : List UInt8), oids.length = count ∧
        (∀ oid ∈ oids, oid < 2 ^ 32) ∧
        input = oids.flatMap (toBytes 4) ++ rest := by
  rw [(quiet_readTruncated parser count).inRange_iff]
  constructor
  · rintro ⟨events, rest, read⟩
    obtain ⟨oids, counted, bounds, same⟩ := readTruncated_eq_ok read
    exact ⟨oids, rest, counted, bounds, same⟩
  · rintro ⟨oids, rest, rfl, bounds, rfl⟩
    obtain ⟨events, read⟩ := readTruncated_complete parser bounds rest
    exact ⟨events, rest, read⟩

/-- The count and the flags of a Truncate message are there, and the OIDs too
if there is memory for their events. -/
theorem inRange_handleTruncate_iff
    {parser : PgOutputParser}
    {input : List UInt8} :
    Reader.InRange (parser.handleTruncate memory) input ↔
      ∃ count options rest, count < 2 ^ 32 ∧
        input = toBytes 4 count ++ options :: rest ∧
        (memory (.events count) = true →
          ∃ (oids : List Nat) (tail : List UInt8), oids.length = count ∧
            (∀ oid ∈ oids, oid < 2 ^ 32) ∧
            rest = oids.flatMap (toBytes 4) ++ tail) := by
  simp only [PgOutputParser.handleTruncate, readU8,
    quiet_readU32.inRange_bind_iff, Reader.quiet_byte.inRange_bind_iff,
    inRange_reserve_bind_iff, inRange_readTruncated_iff, readU32_eq_ok_iff,
    Reader.byte_eq_ok_iff]
  constructor
  · rintro ⟨count, _, ⟨bound, rfl⟩, options, rest, rfl, oids⟩
    exact ⟨count, options, rest, bound, rfl, oids⟩
  · rintro ⟨count, options, rest, bound, rfl, oids⟩
    exact ⟨count, _, ⟨bound, rfl⟩, options, rest, rfl, oids⟩

theorem findRelation_known
    {parser : PgOutputParser}
    {missing : String}
    {oid : Nat}
    {rel : RelationInfo}
    (bound : oid < 2 ^ 32)
    (known : parser.relations oid = some rel)
    (rest : List UInt8) :
    (parser.findRelation missing).run (toBytes 4 oid ++ rest) =
      .ok (rel, rest) := by
  rw [PgOutputParser.findRelation,
    Reader.bind_of_ok (readU32_encode bound rest), known]
  rfl

theorem findRelation_unknown
    {parser : PgOutputParser}
    {missing : String}
    {oid : Nat}
    (bound : oid < 2 ^ 32)
    (unknown : parser.relations oid = none)
    (rest : List UInt8) :
    (parser.findRelation missing).run (toBytes 4 oid ++ rest) =
      .error (.thrown missing) := by
  rw [PgOutputParser.findRelation,
    Reader.bind_of_ok (readU32_encode bound rest), unknown]
  rfl

/-- A change stays in range when its relation is unknown, or the rest of it
does. -/
theorem inRange_findRelation_bind_iff
    {β : Type}
    {parser : PgOutputParser}
    {missing : String}
    {next : RelationInfo → Reader β}
    {input : List UInt8} :
    Reader.InRange (parser.findRelation missing >>= next) input ↔
      ∃ oid rest, oid < 2 ^ 32 ∧ input = toBytes 4 oid ++ rest ∧
        ∀ rel, parser.relations oid = some rel →
          Reader.InRange (next rel) rest := by
  constructor
  · intro inRange
    obtain ⟨oid, rest, bound, rfl⟩ := inRange_readU32_iff.mp
      (Reader.inRange_bind.mp (Reader.inRange_bind.mp inRange).1).1
    refine ⟨oid, rest, bound, rfl, fun rel known => ?_⟩
    exact (inRange_bind_of_ok (findRelation_known bound known rest)).mp inRange
  · rintro ⟨oid, rest, bound, rfl, later⟩
    cases known : parser.relations oid with
    | none =>
        rw [Reader.InRange,
          Reader.bind_of_error (findRelation_unknown bound known rest)]
        simp
    | some rel =>
        exact (inRange_bind_of_ok (findRelation_known bound known rest)).mpr
          (later rel known)

theorem inRange_bind_pure_iff
    {α β : Type}
    {reader : Reader α}
    {result : α → β}
    {input : List UInt8} :
    Reader.InRange (reader >>= fun value => pure (result value)) input ↔
      Reader.InRange reader input := by
  rw [Reader.inRange_bind]
  exact ⟨And.left, fun inRange => ⟨inRange, fun _ _ _ =>
    Reader.inRange_pure _ _⟩⟩

/-- The length check of a Begin message covers what is read. -/
theorem inRange_handleBegin
    (parser : PgOutputParser)
    (input : List UInt8) :
    Reader.InRange parser.handleBegin input := by
  unfold Reader.InRange PgOutputParser.handleBegin
  simp only
  split <;> rename_i short
  · simp
  · have enough : 8 ≤ (input.drop 8).length := by
      rw [List.length_drop]
      omega
    exact inRange_bind_pure_iff.mpr
      (inRange_bind_pure_iff.mpr (Reader.inRange_bytes_iff.mpr enough))

/-- The tag and the tuple of an Insert or Delete. -/
theorem inRange_row_iff
    {rel : RelationInfo}
    {kind : TupleKind}
    {event : DecodedRow → ChangeEvent}
    {input : List UInt8} :
    Reader.InRange (do
        let _ ← readU8
        let row ← decodeTuple memory rel kind
        return event row) input ↔
      ∃ mark tuple, input = mark :: tuple ∧
        TupleReadable memory tuple := by
  constructor
  · intro inRange
    obtain ⟨mark, tuple, rfl⟩ :=
      inRange_readU8_iff.mp (Reader.inRange_bind.mp inRange).1
    rw [inRange_bind_of_ok (readU8_cons mark tuple), inRange_bind_pure_iff,
      inRange_decodeTuple_iff] at inRange
    exact ⟨mark, tuple, rfl, inRange⟩
  · rintro ⟨mark, tuple, rfl, readable⟩
    rw [inRange_bind_of_ok (readU8_cons mark tuple), inRange_bind_pure_iff,
      inRange_decodeTuple_iff]
    exact readable

/-- The tags and the tuples of an Update. -/
theorem inRange_update_iff
    {parser : PgOutputParser}
    {rel : RelationInfo}
    {input : List UInt8} :
    Reader.InRange (do
        let first ← readU8
        let old ← readOldTuple memory rel first
        let newRow ← readNewTuple memory rel old.2
        return parser.changeEvent .update rel old.1 newRow) input ↔
      UpdateReadable memory input := by
  constructor
  · intro inRange
    obtain ⟨first, tuples, rfl⟩ :=
      inRange_readU8_iff.mp (Reader.inRange_bind.mp inRange).1
    rw [inRange_bind_of_ok (readU8_cons first tuples)] at inRange
    exact inRange_updateTuples_iff.mp inRange
  · intro readable
    obtain ⟨first, tuples, rfl⟩ : ∃ first tuples, input = first :: tuples := by
      cases readable <;> exact ⟨_, _, rfl⟩
    rw [inRange_bind_of_ok (readU8_cons first tuples)]
    exact inRange_updateTuples_iff.mpr readable

/-- Messages of the kinds that only the switch looks at. -/
theorem inRange_parseBody_skipped
    {kind : UInt8}
    (other : kind ∉ [tag 'R', tag 'T', tag 'I', tag 'U', tag 'D'])
    (parser : PgOutputParser)
    (body : List UInt8) :
    Reader.InRange (parser.parseBody memory kind) body := by
  simp only [List.mem_cons, List.not_mem_nil, or_false, not_or] at other
  obtain ⟨relation, truncate, insert, update, delete⟩ := other
  rw [PgOutputParser.parseBody, if_neg relation, if_neg truncate,
    if_neg insert, if_neg update, if_neg delete]
  split
  · exact inRange_bind_pure_iff.mpr (inRange_handleBegin parser body)
  · split
    · exact Reader.inRange_pure _ _
    · split
      · exact Reader.inRange_pure _ _
      · split <;> exact Reader.inRange_pure _ _

/-- A change that stays in range names a relation, which is unknown or leaves
a rest that can be read. -/
theorem readable_of_change
    {β : Type}
    {parser : PgOutputParser}
    {missing : String}
    {next : RelationInfo → Reader β}
    {kind : UInt8}
    {body : List UInt8}
    (change : kind ∈ [tag 'I', tag 'U', tag 'D'])
    (inRange : Reader.InRange (parser.findRelation missing >>= next) body)
    (known : ∀ oid rel rest, oid < 2 ^ 32 →
      parser.relations oid = some rel → Reader.InRange (next rel) rest →
        Readable memory parser (kind :: (toBytes 4 oid ++ rest))) :
    Readable memory parser (kind :: body) := by
  obtain ⟨oid, rest, bound, rfl, later⟩ :=
    inRange_findRelation_bind_iff.mp inRange
  cases found : parser.relations oid with
  | none => exact .unknown rest change bound found
  | some rel => exact known oid rel rest bound found (later rel found)

theorem relation_append (layout : RelationLayout) (rest : List UInt8) :
    layout.encode ++ rest =
      relationHead layout.oid layout.schema layout.table
          layout.replicaIdentity layout.columns.length ++
        (layout.columns.flatMap ColumnLayout.encode ++ rest) := by
  simp [relationHead, RelationLayout.encode]

theorem readable_of_relation
    {parser : PgOutputParser}
    {body : List UInt8}
    (inRange : Reader.InRange (parser.handleRelation memory) body) :
    Readable memory parser (tag 'R' :: body) := by
  obtain ⟨oid, count, schema, table, identity, rest, oidBound, names,
    countBound, rfl, announced⟩ := inRange_handleRelation_iff.mp inRange
  cases met : memory (.columnNames count) with
  | false => exact .relationRefused rest oidBound names countBound met
  | true =>
      obtain ⟨columns, tail, rfl, valid, rfl⟩ := announced met
      have whole := relation_append ⟨oid, schema, table, identity, columns⟩
        tail
      rw [← whole]
      exact .relation tail ⟨oidBound, names.1, names.2, countBound, valid⟩

theorem readable_of_truncate
    {parser : PgOutputParser}
    {body : List UInt8}
    (inRange : Reader.InRange (parser.handleTruncate memory) body) :
    Readable memory parser (tag 'T' :: body) := by
  obtain ⟨count, options, rest, bound, rfl, announced⟩ :=
    inRange_handleTruncate_iff.mp inRange
  cases met : memory (.events count) with
  | false => exact .truncateRefused rest bound met
  | true =>
      obtain ⟨oids, tail, rfl, bounds, rfl⟩ := announced met
      exact .truncate tail ⟨bound, bounds⟩

theorem inRange_parseBody_iff
    {parser : PgOutputParser}
    {kind : UInt8}
    {body : List UInt8} :
    Reader.InRange (parser.parseBody memory kind) body ↔
      Readable memory parser (kind :: body) := by
  constructor
  · intro inRange
    by_cases other : kind ∉ [tag 'R', tag 'T', tag 'I', tag 'U', tag 'D']
    · exact .skipped body other
    · simp only [List.mem_cons, List.not_mem_nil, or_false, not_not] at other
      rcases other with rfl | rfl | rfl | rfl | rfl
      · exact readable_of_relation (inRange_bind_pure_iff.mp inRange)
      · exact readable_of_truncate (inRange_bind_pure_iff.mp inRange)
      · refine readable_of_change (by simp) (inRange_bind_pure_iff.mp inRange)
          fun oid rel rest bound known later => ?_
        obtain ⟨mark, tuple, rfl, readable⟩ := inRange_row_iff.mp later
        exact .row (by simp) bound known readable
      · refine readable_of_change (by simp) (inRange_bind_pure_iff.mp inRange)
          fun oid rel rest bound known later => ?_
        exact .update bound known (inRange_update_iff.mp later)
      · refine readable_of_change (by simp) (inRange_bind_pure_iff.mp inRange)
          fun oid rel rest bound known later => ?_
        obtain ⟨mark, tuple, rfl, readable⟩ := inRange_row_iff.mp later
        exact .row (by simp) bound known readable
  · intro readable
    cases readable with
    | skipped _ other => exact inRange_parseBody_skipped other parser body
    | relation rest valid =>
        exact inRange_bind_pure_iff.mpr (inRange_handleRelation_iff.mpr
          ⟨_, _, _, _, _, _, valid.oid, ⟨valid.schema, valid.table⟩,
            valid.count, relation_append _ rest,
            fun _ => ⟨_, rest, rfl, valid.columns, rfl⟩⟩)
    | relationRefused rest oidBound names countBound refused =>
        refine inRange_bind_pure_iff.mpr (inRange_handleRelation_iff.mpr
          ⟨_, _, _, _, _, rest, oidBound, names, countBound, rfl,
            fun met => ?_⟩)
        simp [refused] at met
    | truncate rest valid =>
        exact inRange_bind_pure_iff.mpr (inRange_handleTruncate_iff.mpr
          ⟨_, _, _, valid.1, rfl, fun _ => ⟨_, rest, rfl, valid.2, rfl⟩⟩)
    | truncateRefused rest bound refused =>
        refine inRange_bind_pure_iff.mpr (inRange_handleTruncate_iff.mpr
          ⟨_, _, rest, bound, rfl, fun met => ?_⟩)
        simp [refused] at met
    | unknown rest change bound absent =>
        simp only [List.mem_cons, List.not_mem_nil, or_false] at change
        rcases change with rfl | rfl | rfl <;>
          exact inRange_bind_pure_iff.mpr (inRange_findRelation_bind_iff.mpr
            ⟨_, rest, bound, rfl, fun rel known => by simp [absent] at known⟩)
    | row change bound known readable =>
        simp only [List.mem_cons, List.not_mem_nil, or_false] at change
        rcases change with rfl | rfl <;>
          exact inRange_bind_pure_iff.mpr (inRange_findRelation_bind_iff.mpr
            ⟨_, _, bound, rfl, fun rel _ =>
              inRange_row_iff.mpr ⟨_, _, rfl, readable⟩⟩)
    | update bound known readable =>
        exact inRange_bind_pure_iff.mpr (inRange_findRelation_bind_iff.mpr
          ⟨_, _, bound, rfl, fun rel _ => inRange_update_iff.mpr readable⟩)

/-- `parse` stays inside the message exactly when the message is readable. -/
theorem parse_inRange_iff
    {parser : PgOutputParser}
    {data : List UInt8} :
    parser.parse memory data ≠ .error .outOfRange ↔
      Readable memory parser data := by
  cases data with
  | nil => exact ⟨fun _ => .empty, fun _ => by simp [PgOutputParser.parse]⟩
  | cons kind body =>
      rw [parse_cons, ← inRange_parseBody_iff, Reader.InRange]
      cases (parser.parseBody memory kind).run body <;> simp [Except.map]

/-! ## Frames -/

theorem readU64_of_length
    {input : List UInt8}
    (enough : 8 ≤ input.length) :
    ∃ value, readU64.run input = .ok (value, input.drop 8) := by
  have read : (Reader.bytes 8).run input =
      .ok (input.take 8, input.drop 8) := by
    simp [Reader.bytes, enough]
  exact ⟨_, Reader.bind_of_ok read⟩

/-- The length check of a header covers what is read. -/
theorem parseXlogdataHeader_of_length
    {buf : List UInt8}
    (enough : 25 ≤ buf.length) :
    ∃ header, parseXlogdataHeader buf = .ok (some header) ∧
      header.payload = buf.drop 25 := by
  obtain ⟨walStart, first⟩ := readU64_of_length
    (show 8 ≤ (buf.drop 1).length by rw [List.length_drop]; omega)
  obtain ⟨walEnd, second⟩ := readU64_of_length
    (show 8 ≤ ((buf.drop 1).drop 8).length by
      simp only [List.length_drop]
      omega)
  obtain ⟨sendTime, third⟩ := readU64_of_length
    (show 8 ≤ (((buf.drop 1).drop 8).drop 8).length by
      simp only [List.length_drop]
      omega)
  have numbers : readXlogdataNumbers.run (buf.drop 1) =
      .ok ((walStart, walEnd, sendTime), buf.drop 25) := by
    rw [readXlogdataNumbers, Reader.bind_of_ok first,
      Reader.bind_of_ok second, Reader.bind_of_ok third]
    simp [List.drop_drop]
  refine ⟨⟨walStart, walEnd, sendTime, buf.drop 25⟩, ?_, rfl⟩
  rw [parseXlogdataHeader, if_neg (by omega), numbers]
  rfl

/-- The length check of a keepalive covers what is read. -/
theorem parseKeepaliveMessage_ok (buf : List UInt8) :
    ∃ keepalive, parseKeepaliveMessage buf = .ok keepalive := by
  unfold parseKeepaliveMessage
  split <;> rename_i short
  · exact ⟨none, rfl⟩
  · obtain ⟨walEnd, first⟩ := readU64_of_length
      (show 8 ≤ (buf.drop 1).length by rw [List.length_drop]; omega)
    obtain ⟨sendTime, second⟩ := readU64_of_length
      (show 8 ≤ ((buf.drop 1).drop 8).length by
        simp only [List.length_drop]
        omega)
    have more : 0 < (((buf.drop 1).drop 8).drop 8).length := by
      simp only [List.length_drop]
      omega
    obtain ⟨flag, rest, split⟩ := List.exists_cons_of_length_pos more
    rw [readKeepalive, Reader.bind_of_ok first, Reader.bind_of_ok second,
      split, Reader.bind_of_ok (readU8_cons flag rest)]
    exact ⟨_, rfl⟩

/-- The frame is handled without undefined behaviour: it has some effect. -/
def HandledSafely (memory : Memory) (state : ReplicationState)
    (buf : List UInt8) : Prop :=
  ∃ next effect, handleFrame memory state buf = .ok (next, effect)

/-- An XLogData frame holds its header and a readable message. -/
def FrameReadable (memory : Memory) (parser : PgOutputParser)
    (buf : List UInt8) : Prop :=
  buf.head? = some (tag 'w') →
    25 ≤ buf.length ∧ Readable memory parser (buf.drop 25)

/-- Handling a frame neither leaves it nor uses an absent header exactly when
the frame is readable. -/
theorem handledSafely_iff
    (memory : Memory)
    (state : ReplicationState)
    (buf : List UInt8)
    (nonempty : buf ≠ []) :
    HandledSafely memory state buf ↔
      FrameReadable memory state.parser buf := by
  obtain ⟨kind, rest, rfl⟩ := List.exists_cons_of_ne_nil nonempty
  unfold HandledSafely FrameReadable
  rw [List.head?_cons, Option.some_inj]
  by_cases keepalive : kind = tag 'k'
  · subst keepalive
    obtain ⟨parsed, ok⟩ := parseKeepaliveMessage_ok (tag 'k' :: rest)
    refine ⟨fun _ other => absurd other (by decide), fun _ => ?_⟩
    simp only [handleFrame, List.head?_cons, if_true, ok]
    cases parsed <;> exact ⟨_, _, rfl⟩
  by_cases data : kind = tag 'w'
  · subst data
    simp only [handleFrame, List.head?_cons, keepalive, if_false, if_true,
      forall_const]
    by_cases enough : 25 ≤ (tag 'w' :: rest).length
    · obtain ⟨header, parsed, payload⟩ := parseXlogdataHeader_of_length enough
      simp only [parsed, enough, true_and, ← payload, ← parse_inRange_iff]
      cases outcome : state.parser.parse memory header.payload with
      | ok result => simp
      | error fault => cases fault <;> simp
    · have absent : parseXlogdataHeader (tag 'w' :: rest) = .ok none := by
        rw [parseXlogdataHeader, if_pos (by omega)]
      simp only [absent, enough, false_and, iff_false]
      rintro ⟨_, _, impossible⟩
      cases impossible
  · simp [handleFrame, keepalive, data]

theorem frame_length_le (frame : Frame) : 25 ≤ frame.encode.length := by
  simp only [Frame.encode, List.cons_append, List.length_cons,
    List.length_append, length_toBytes]
  omega

theorem frame_drop_header (frame : Frame) :
    frame.encode.drop 25 = frame.message.encode := by
  have header : (tag 'w' :: toBytes 8 frame.walStart ++
      toBytes 8 frame.walEnd ++ toBytes 8 frame.sendTime).length = 25 := by
    simp
  rw [Frame.encode, List.drop_append_of_le_length (Nat.le_of_eq header.symm),
    ← header, List.drop_length, List.nil_append]

/-- A complete Relation message is handled safely, and so is a Truncate of
more relations than there is memory for. -/
theorem handledSafely_relationFrame :
    HandledSafely .unlimited {}
        (Frame.mk 110 110 0 (.relation docsLayout)).encode ∧
      HandledSafely (fun request => request ≠ .events 4294967295) {}
        (tag 'w' :: List.replicate 24 0 ++
          [tag 'T', 255, 255, 255, 255, 0]) := by
  constructor
  · let frame : Frame := ⟨110, 110, 0, .relation docsLayout⟩
    have nonempty : frame.encode ≠ [] := List.cons_ne_nil _ _
    refine (handledSafely_iff _ {} frame.encode nonempty).mpr fun _ =>
      ⟨frame_length_le frame, ?_⟩
    have whole : frame.message.encode =
        tag 'R' :: (docsLayout.encode ++ []) := by
      rw [List.append_nil]
      rfl
    rw [frame_drop_header, whole]
    exact .relation [] docsLayout_valid
  · refine (handledSafely_iff _ {} _ (List.cons_ne_nil _ _)).mpr fun _ =>
      ⟨by decide, ?_⟩
    have announced : toBytes 4 4294967295 = [255, 255, 255, 255] := by decide
    have refused : ∀ parser, Readable
        (fun request => request ≠ .events 4294967295) parser
        (tag 'T' :: (toBytes 4 4294967295 ++ 0 :: [])) :=
      fun _ => .truncateRefused [] (by decide) (by decide)
    rw [announced] at refused
    exact refused _

/-- A truncated XLogData frame makes the program use the header it failed to
parse, whatever the memory. -/
theorem not_handledSafely_truncated :
    ¬∃ memory, ∀ (state : ReplicationState) (buf : List UInt8),
      buf ≠ [] → HandledSafely memory state buf := by
  rintro ⟨memory, claim⟩
  obtain ⟨_, _, handled⟩ := claim {} [tag 'w'] (by decide)
  cases handled

/-- A Relation message cut after its type is read past its end. -/
example (memory : Memory) :
    handleFrame memory {} (tag 'w' :: List.replicate 24 0 ++ [tag 'R']) =
      .error .outOfRange := rfl

end Wire
end Walkrie
