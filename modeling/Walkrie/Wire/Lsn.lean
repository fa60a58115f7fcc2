import Walkrie.Library.Hexadecimal
import Walkrie.Wire.Decode

/-!
# Positions in the log

A position in the write-ahead log is a number of 64 bits.  In queries and in
messages it is spelled as two hexadecimal numerals with a slash between them,
one for each half.  In the replication stream it is eight bytes, highest
first.  The source parses the position it starts from, stores it as the
confirmed one, and reports the confirmed position in status updates.
-/

namespace Walkrie
namespace Wire

open BigEndian Hexadecimal

/-! ## The spelling -/

/-- The format of `format_lsn` and `parse_lsn`. -/
def lsnFormat : List Directive :=
  [.hex, .literal '/' (by decide), .hex]

/-- `format_lsn`. -/
def formatLsn (lsn : UInt64) : String :=
  snprintf 32 lsnFormat
    [(lsn >>> 32).toUInt32, (lsn &&& 0xFFFFFFFF).toUInt32]

/-- The number with these halves. -/
def joinHalves (hi lo : UInt32) : UInt64 :=
  hi.toUInt64 <<< 32 ||| lo.toUInt64

/-- `parse_lsn`.  There is no result when a half does not fit. -/
def parseLsn (s : String) : Option UInt64 :=
  (sscanf s lsnFormat).map fun stored =>
    -- A half that is not stored keeps its initial value.
    joinHalves (stored.getD 0 0) (stored.getD 1 0)

/-- The text is a position as two numerals, of either case and with any number
of leading zeros. -/
def Spells (text : String) (lsn : Nat) : Prop :=
  ∃ high low : List Char, ∃ h l : Nat,
    text = String.ofList (high ++ '/' :: low) ∧
      numeral? high = some h ∧ numeral? low = some l ∧
      h < 2 ^ 32 ∧ l < 2 ^ 32 ∧ lsn = h * 2 ^ 32 + l

theorem separated_lsnFormat : Separated lsnFormat :=
  ⟨⟨by decide, by decide, by decide⟩, trivial, trivial⟩

theorem toNat_joinHalves (hi lo : UInt32) :
    (joinHalves hi lo).toNat = hi.toNat * 2 ^ 32 + lo.toNat := by
  have high := hi.toNat_lt
  have low := lo.toNat_lt
  have kept : hi.toNat * 2 ^ 32 % 2 ^ 64 = hi.toNat * 2 ^ 32 :=
    Nat.mod_eq_of_lt (by omega)
  rw [joinHalves, UInt64.toNat_or, UInt64.toNat_shiftLeft,
    UInt32.toNat_toUInt64, UInt32.toNat_toUInt64]
  rw [show (32 : UInt64).toNat % 64 = 32 from rfl, Nat.shiftLeft_eq, kept,
    ← Nat.shiftLeft_eq, ← Nat.shiftLeft_add_eq_or_of_lt low, Nat.shiftLeft_eq]

theorem joinHalves_split (lsn : UInt64) :
    joinHalves (lsn >>> 32).toUInt32 (lsn &&& 0xFFFFFFFF).toUInt32 = lsn := by
  have bound := lsn.toNat_lt
  have high : (lsn >>> 32).toUInt32.toNat = lsn.toNat / 2 ^ 32 := by
    rw [UInt64.toNat_toUInt32, UInt64.toNat_shiftRight,
      show (32 : UInt64).toNat % 64 = 32 from rfl,
      Nat.shiftRight_eq_div_pow]
    omega
  have low : (lsn &&& 0xFFFFFFFF).toUInt32.toNat = lsn.toNat % 2 ^ 32 := by
    rw [UInt64.toNat_toUInt32, UInt64.toNat_and,
      show (0xFFFFFFFF : UInt64).toNat = 2 ^ 32 - 1 from rfl,
      Nat.and_two_pow_sub_one_eq_mod, Nat.mod_mod]
  apply UInt64.toNat_inj.mp
  rw [toNat_joinHalves, high, low]
  omega

/-- The buffer of `format_lsn` is large enough. -/
theorem length_fill_lsnFormat_lt (hi lo : UInt32) :
    (fill lsnFormat ([hi, lo].map fun half => print half.toNat)).length <
      32 := by
  have short : ∀ half : UInt32, (print half.toNat).length ≤ 8 := fun half =>
    length_print_le (by decide) half.toNat_lt
  have first := short hi
  have second := short lo
  simp only [lsnFormat, List.map_cons, List.map_nil, fill, List.length_append,
    List.length_cons, List.length_nil]
  omega

/-- A formatted position is parsed back. -/
theorem parseLsn_formatLsn (lsn : UInt64) :
    parseLsn (formatLsn lsn) = some lsn := by
  have stored : sscanf (formatLsn lsn) lsnFormat =
      some [(lsn >>> 32).toUInt32, (lsn &&& 0xFFFFFFFF).toUInt32] :=
    sscanf_snprintf separated_lsnFormat rfl (length_fill_lsnFormat_lt _ _)
  rw [parseLsn, stored, Option.map_some]
  exact congrArg some (joinHalves_split lsn)

/-- Every spelling of a position is parsed. -/
theorem Spells.parseLsn_eq
    {text : String}
    {lsn : Nat}
    (spells : Spells text lsn) :
    (parseLsn text).map UInt64.toNat = some lsn := by
  obtain ⟨high, low, h, l, rfl, highReads, lowReads, highBound, lowBound,
    rfl⟩ := spells
  have highHalf : (UInt32.ofNat h).toNat = h :=
    UInt32.toNat_ofNat_of_lt' highBound
  have lowHalf : (UInt32.ofNat l).toNat = l :=
    UInt32.toNat_ofNat_of_lt' lowBound
  have stored : sscanf (String.ofList (high ++ '/' :: low)) lsnFormat =
      some [UInt32.ofNat h, UInt32.ofNat l] := by
    have whole : high ++ '/' :: low = fill lsnFormat [high, low] := by
      simp [lsnFormat, fill]
    rw [whole]
    refine sscanf_fill separated_lsnFormat (.cons ?_ (.cons ?_ .nil)) rfl
    · rw [highReads, highHalf]
    · rw [lowReads, lowHalf]
  rw [parseLsn, stored, Option.map_some, Option.map_some]
  simp only [List.getD_cons_zero, List.getD_cons_succ, toNat_joinHalves,
    highHalf, lowHalf]

/-! ## The bytes -/

/-- `put_u64` of `ping_update`. -/
def putU64 (v : UInt64) : List UInt8 :=
  (List.range 8).reverse.map fun i =>
    ((v >>> UInt64.ofNat (i * 8)) &&& 0xFF).toUInt8

/-- The clock of the server starts with the year 2000. -/
def kPgEpochOffsetSecs : UInt64 := 946684800

/-- The message `ping_update` sends, for a confirmed position and a time. -/
def pingUpdate (confirmed time : UInt64) : List UInt8 :=
  -- The same position has been written, flushed and applied.
  tag 'r' :: (putU64 confirmed ++ (putU64 confirmed ++ (putU64 confirmed ++
    (putU64 ((time - kPgEpochOffsetSecs) * 1000000) ++ [0]))))

/-- The loop of `put_u64` writes the digits to base 256. -/
theorem putU64_eq (v : UInt64) : putU64 v = toBytes 8 v.toNat := by
  rw [toBytes_eq_map, putU64]
  refine List.map_congr_left fun index member => ?_
  have small : index < 8 := List.mem_range.mp (List.mem_reverse.mp member)
  have shift : (UInt64.ofNat (index * 8)).toNat % 64 = 8 * index := by
    rw [UInt64.toNat_ofNat_of_lt' (by
      show index * 8 < 2 ^ 64
      omega)]
    omega
  apply UInt8.toNat_inj.mp
  rw [UInt64.toNat_toUInt8, UInt64.toNat_and, UInt64.toNat_shiftRight, shift,
    show (0xFF : UInt64).toNat = 2 ^ 8 - 1 from rfl,
    Nat.and_two_pow_sub_one_eq_mod, Nat.mod_mod, Nat.shiftRight_eq_div_pow,
    Nat.pow_mul, UInt8.toNat_ofNat', Nat.mod_mod]

/-- What the readers of the frame layer make of the bytes for a position: the
header of an XLogData frame, a keepalive, and the status update itself, whose
three positions lie where a header has its numbers. -/
structure ReadBack (lsn : UInt64) : Prop where
  number : ∀ rest, readU64.run (putU64 lsn ++ rest) = .ok (lsn.toNat, rest)
  xlogdata : ∀ (kind : UInt8) (walEnd sendTime : UInt64)
      (payload : List UInt8),
    parseXlogdataHeader (kind :: (putU64 lsn ++ (putU64 walEnd ++
      (putU64 sendTime ++ payload)))) =
        .ok (some ⟨lsn.toNat, walEnd.toNat, sendTime.toNat, payload⟩)
  keepalive : ∀ (kind : UInt8) (sendTime : UInt64) (reply : UInt8)
      (rest : List UInt8),
    parseKeepaliveMessage (kind :: (putU64 lsn ++ (putU64 sendTime ++
      reply :: rest))) =
        .ok (some ⟨lsn.toNat, sendTime.toNat, decide (reply ≠ 0)⟩)
  status : ∀ time, ∃ payload,
    parseXlogdataHeader (pingUpdate lsn time) =
      .ok (some ⟨lsn.toNat, lsn.toNat, lsn.toNat, payload⟩)

theorem readU64_putU64 (lsn : UInt64) (rest : List UInt8) :
    readU64.run (putU64 lsn ++ rest) = .ok (lsn.toNat, rest) := by
  rw [putU64_eq]
  exact readU64_encode lsn.toNat_lt rest

theorem parseXlogdataHeader_putU64
    (kind : UInt8)
    (walStart walEnd sendTime : UInt64)
    (payload : List UInt8) :
    parseXlogdataHeader (kind :: (putU64 walStart ++ (putU64 walEnd ++
      (putU64 sendTime ++ payload)))) =
        .ok (some ⟨walStart.toNat, walEnd.toNat, sendTime.toNat, payload⟩) := by
  rw [putU64_eq, putU64_eq, putU64_eq]
  exact parseXlogdataHeader_append walStart.toNat_lt walEnd.toNat_lt
    sendTime.toNat_lt kind payload

theorem readBack (lsn : UInt64) : ReadBack lsn where
  number := readU64_putU64 lsn
  xlogdata := fun kind => parseXlogdataHeader_putU64 kind lsn
  keepalive := by
    intro kind sendTime reply rest
    have fields : readKeepalive.run (putU64 lsn ++ (putU64 sendTime ++
        reply :: rest)) =
          .ok (⟨lsn.toNat, sendTime.toNat, decide (reply ≠ 0)⟩, rest) := by
      rw [readKeepalive, Reader.bind_of_ok (readU64_putU64 lsn _),
        Reader.bind_of_ok (readU64_putU64 sendTime _),
        Reader.bind_of_ok (readU8_cons reply rest)]
      rfl
    rw [parseKeepaliveMessage, if_neg (by simp [putU64_eq]; omega),
      List.drop_succ_cons, List.drop_zero, fields]
    rfl
  status := fun _ => ⟨_, parseXlogdataHeader_putU64 _ _ _ _ _⟩

/-- Formatting and parsing agree on every position, every spelling of a
position is parsed, and the bytes that are sent are the bytes that are
read. -/
theorem lsn_codecs_agree :
    (∀ lsn : UInt64, parseLsn (formatLsn lsn) = some lsn) ∧
      (∀ (text : String) (lsn : Nat), Spells text lsn →
        (parseLsn text).map UInt64.toNat = some lsn) ∧
      ∀ lsn : UInt64, ReadBack lsn :=
  ⟨parseLsn_formatLsn, fun _ _ => Spells.parseLsn_eq, readBack⟩

/-- A position in lower case with leading zeros. -/
theorem parseLsn_lowercase :
    Spells "00000016/0b374d8F" 0x160B374D8F ∧
      (parseLsn "00000016/0b374d8F").map UInt64.toNat =
        some 0x160B374D8F := by
  have spells : Spells "00000016/0b374d8F" 0x160B374D8F :=
    ⟨"00000016".toList, "0b374d8F".toList, 0x16, 0x0B374D8F, by decide,
      by decide, by decide, by decide, by decide, by decide⟩
  exact ⟨spells, lsn_codecs_agree.2.1 _ _ spells⟩

/-! ## Resuming -/

/-- `resume_slot`: the position the server has for the slot, if it has one. -/
def resumeSlot (confirmedFlushLsn : Option String) : String :=
  confirmedFlushLsn.getD "0/0"

/-- The position `connect` stores as the confirmed one: the consistent point
of a slot it has created, or where the slot stands. -/
def connectLsn (consistentPoint confirmedFlushLsn : Option String) :
    Option UInt64 :=
  parseLsn (consistentPoint.getD (resumeSlot confirmedFlushLsn))

/-- The source resumes from the position the server spells. -/
theorem connectLsn_of_spells
    {consistentPoint confirmedFlushLsn : Option String}
    {lsn : UInt64}
    (spells : Spells (consistentPoint.getD (resumeSlot confirmedFlushLsn))
      lsn.toNat) :
    connectLsn consistentPoint confirmedFlushLsn = some lsn := by
  obtain ⟨stored, parsed, same⟩ :=
    Option.map_eq_some_iff.mp spells.parseLsn_eq
  rw [connectLsn, parsed, UInt64.toNat_inj.mp same]

/-- A slot without a confirmed position is resumed from zero. -/
example : connectLsn none none = some 0 := by decide

/-- The position a status update reports as flushed. -/
def flushedLsn (message : List UInt8) : Nat :=
  ofBytes ((message.drop (1 + 8)).take 8)

theorem flushedLsn_pingUpdate (confirmed time : UInt64) :
    flushedLsn (pingUpdate confirmed time) = confirmed.toNat := by
  have length : (toBytes 8 confirmed.toNat).length = 8 :=
    length_toBytes 8 confirmed.toNat
  rw [flushedLsn, pingUpdate, putU64_eq, Nat.add_comm, List.drop_succ_cons,
    List.drop_left' length, List.take_left' length]
  exact ofBytes_toBytes confirmed.toNat_lt

/-- A position that was reported in a status update is the confirmed one of
the next connection, however the server spells it. -/
theorem connectLsn_pingUpdate
    {confirmed time : UInt64}
    {answer : String}
    (spells : Spells answer (flushedLsn (pingUpdate confirmed time))) :
    connectLsn none (some answer) = some confirmed := by
  rw [flushedLsn_pingUpdate] at spells
  exact connectLsn_of_spells spells

end Wire
end Walkrie
