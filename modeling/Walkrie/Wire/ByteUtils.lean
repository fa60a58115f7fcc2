import Walkrie.Library.Reader

/-!
# Reading fields of a replication message

The cursor helpers of the decoder, as they combine the bytes they read.  Every
helper reads exactly the big-endian digits of its result.
-/

namespace Walkrie
namespace Wire

/-- A byte string of the program, one character for each byte. -/
def text (bytes : List UInt8) : String :=
  String.ofList (bytes.map fun byte => Char.ofNat byte.toNat)

/-- The byte of a character constant. -/
def tag (letter : Char) : UInt8 :=
  UInt8.ofNat letter.toNat

/-- `read_u8`. -/
def readU8 : Reader UInt8 :=
  Reader.byte

/-- `read_u16` on a little-endian host: the bytes are loaded as they lie in
memory and swapped. -/
def readU16 : Reader Nat := do
  let first ← Reader.byte
  let second ← Reader.byte
  let v := second.toNat <<< 8 ||| first.toNat
  return (v &&& 0xFF) <<< 8 ||| v >>> 8

/-- `read_u32`. -/
def readU32 : Reader Nat := do
  let p0 ← Reader.byte
  let p1 ← Reader.byte
  let p2 ← Reader.byte
  let p3 ← Reader.byte
  return p0.toNat <<< 24 ||| p1.toNat <<< 16 ||| p2.toNat <<< 8 ||| p3.toNat

/-- `read_u64` of the frame layer and of the decoder. -/
def readU64 : Reader Nat := do
  let p ← Reader.bytes 8
  return p.foldl (fun v byte => (v <<< 8) % 2 ^ 64 ||| byte.toNat) 0

/-- `read_cstr`. -/
def readCstr : Reader String := do
  let s ← Reader.untilZero
  return text s

/-- Appending one more byte below. -/
theorem shiftLeft_or_byte (value : Nat) (byte : UInt8) :
    value <<< 8 ||| byte.toNat = value * 256 + byte.toNat := by
  rw [← Nat.shiftLeft_add_eq_or_of_lt byte.toNat_lt, Nat.shiftLeft_eq]

/-- The two orders in which `read_u16` combines its bytes. -/
theorem swapped_eq (first second : UInt8) :
    ((second.toNat <<< 8 ||| first.toNat) &&& 0xFF) <<< 8 |||
        (second.toNat <<< 8 ||| first.toNat) >>> 8 =
      BigEndian.ofBytes [first, second] := by
  have high := first.toNat_lt
  have low := second.toNat_lt
  have loaded := shiftLeft_or_byte second.toNat first
  have masked : (second.toNat * 256 + first.toNat) &&& 0xFF =
      first.toNat := by
    rw [show 0xFF = 2 ^ 8 - 1 from rfl, Nat.and_two_pow_sub_one_eq_mod]
    omega
  have shifted : (second.toNat * 256 + first.toNat) >>> 8 =
      second.toNat := by
    rw [Nat.shiftRight_eq_div_pow]
    omega
  rw [loaded, masked, shifted, shiftLeft_or_byte]
  simp [BigEndian.ofBytes]

/-- The order in which `read_u32` combines its bytes. -/
theorem combined_eq (p0 p1 p2 p3 : UInt8) :
    p0.toNat <<< 24 ||| p1.toNat <<< 16 ||| p2.toNat <<< 8 ||| p3.toNat =
      BigEndian.ofBytes [p0, p1, p2, p3] := by
  have nested : p0.toNat <<< 24 ||| p1.toNat <<< 16 ||| p2.toNat <<< 8 |||
      p3.toNat = ((p0.toNat <<< 8 ||| p1.toNat) <<< 8 ||| p2.toNat) <<< 8 |||
        p3.toNat := by
    simp only [Nat.shiftLeft_or_distrib, ← Nat.shiftLeft_add]
  rw [nested]
  simp only [shiftLeft_or_byte]
  simp [BigEndian.ofBytes]

theorem readU16_eq_ok_iff
    {input rest : List UInt8}
    {value : Nat} :
    readU16.run input = .ok (value, rest) ↔
      value < 2 ^ 16 ∧ input = BigEndian.toBytes 2 value ++ rest := by
  rw [show 2 ^ 16 = 256 ^ 2 from rfl, ← BigEndian.exists_bytes_iff]
  simp only [readU16, Reader.bind_eq_ok_iff, Reader.byte_eq_ok_iff,
    Reader.run_pure, Except.ok.injEq, Prod.mk.injEq, swapped_eq]
  constructor
  · rintro ⟨first, _, rfl, second, _, rfl, rfl, rfl⟩
    exact ⟨[first, second], rfl, rfl, rfl⟩
  · rintro ⟨bytes, length, rfl, rfl⟩
    obtain ⟨first, second, rfl⟩ := List.length_eq_two.mp length
    exact ⟨first, _, rfl, second, _, rfl, rfl, rfl⟩

theorem readU32_eq_ok_iff
    {input rest : List UInt8}
    {value : Nat} :
    readU32.run input = .ok (value, rest) ↔
      value < 2 ^ 32 ∧ input = BigEndian.toBytes 4 value ++ rest := by
  rw [show 2 ^ 32 = 256 ^ 4 from rfl, ← BigEndian.exists_bytes_iff]
  simp only [readU32, Reader.bind_eq_ok_iff, Reader.byte_eq_ok_iff,
    Reader.run_pure, Except.ok.injEq, Prod.mk.injEq, combined_eq]
  constructor
  · rintro ⟨p0, _, rfl, p1, _, rfl, p2, _, rfl, p3, _, rfl, rfl, rfl⟩
    exact ⟨[p0, p1, p2, p3], rfl, rfl, rfl⟩
  · rintro ⟨bytes, length, rfl, rfl⟩
    match bytes, length with
    | [p0, p1, p2, p3], _ =>
        exact ⟨p0, _, rfl, p1, _, rfl, p2, _, rfl, p3, _, rfl, rfl, rfl⟩

/-- The loop of `read_u64` never loses a digit. -/
theorem fold_eq_ofBytes
    (bytes : List UInt8)
    (short : bytes.length ≤ 8) :
    bytes.foldl (fun v byte => (v <<< 8) % 2 ^ 64 ||| byte.toNat) 0 =
      BigEndian.ofBytes bytes := by
  induction bytes using List.reverseRecOn with
  | nil => rfl
  | append_singleton bytes byte inductionHypothesis =>
      rw [List.length_append, List.length_singleton] at short
      have bound : BigEndian.ofBytes bytes < 2 ^ 56 := by
        refine Nat.lt_of_lt_of_le (BigEndian.ofBytes_lt bytes) ?_
        exact Nat.pow_le_pow_right (by decide) (show bytes.length ≤ 7 by omega)
      have kept : (BigEndian.ofBytes bytes <<< 8) % 2 ^ 64 =
          BigEndian.ofBytes bytes <<< 8 := by
        rw [Nat.shiftLeft_eq]
        omega
      rw [List.foldl_append, inductionHypothesis (by omega), List.foldl_cons,
        List.foldl_nil, kept, shiftLeft_or_byte,
        BigEndian.ofBytes_append_singleton]

theorem readU64_eq_ok_iff
    {input rest : List UInt8}
    {value : Nat} :
    readU64.run input = .ok (value, rest) ↔
      value < 2 ^ 64 ∧ input = BigEndian.toBytes 8 value ++ rest := by
  rw [show 2 ^ 64 = 256 ^ 8 from rfl, ← BigEndian.exists_bytes_iff]
  simp only [readU64, Reader.bind_eq_ok_iff, Reader.bytes_eq_ok_iff,
    Reader.run_pure, Except.ok.injEq, Prod.mk.injEq]
  constructor
  · rintro ⟨bytes, _, ⟨length, rfl⟩, rfl, rfl⟩
    exact ⟨bytes, length, fold_eq_ofBytes bytes (by omega), rfl⟩
  · rintro ⟨bytes, length, rfl, rfl⟩
    exact ⟨bytes, rest, ⟨length, rfl⟩, fold_eq_ofBytes bytes (by omega), rfl⟩

theorem readCstr_eq_ok_iff
    {input rest : List UInt8}
    {value : String} :
    readCstr.run input = .ok (value, rest) ↔
      ∃ name : List UInt8,
        0 ∉ name ∧ value = text name ∧ input = name ++ 0 :: rest := by
  simp only [readCstr, Reader.bind_eq_ok_iff, Reader.untilZero_eq_ok_iff,
    Reader.run_pure, Except.ok.injEq, Prod.mk.injEq]
  constructor
  · rintro ⟨name, _, ⟨absent, rfl⟩, rfl, rfl⟩
    exact ⟨name, absent, rfl, rfl⟩
  · rintro ⟨name, absent, rfl, rfl⟩
    exact ⟨name, rest, ⟨absent, rfl⟩, rfl, rfl⟩

theorem quiet_readU16 : Reader.Quiet readU16 :=
  Reader.quiet_byte.bind fun _ =>
    Reader.quiet_byte.bind fun _ => Reader.quiet_pure _

theorem quiet_readU32 : Reader.Quiet readU32 :=
  Reader.quiet_byte.bind fun _ => Reader.quiet_byte.bind fun _ =>
    Reader.quiet_byte.bind fun _ => Reader.quiet_byte.bind fun _ =>
      Reader.quiet_pure _

theorem quiet_readCstr : Reader.Quiet readCstr :=
  Reader.quiet_untilZero.bind fun _ => Reader.quiet_pure _

end Wire
end Walkrie
