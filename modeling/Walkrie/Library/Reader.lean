import Mathlib

/-!
# Readers over a bounded buffer

A reader consumes a buffer of bytes from the front.  Reading past the end of
the buffer is a fault of its own, different from an error the program throws,
so that a proof can say that a program never leaves its buffer.

The second part is the big-endian representation of numbers.
-/

namespace Reader

/-- Why a reader stopped. -/
inductive Fault
  | outOfRange
  | thrown (message : String)
  deriving DecidableEq

end Reader

/-- A computation that consumes a buffer from the front. -/
structure Reader (α : Type) where
  run : List UInt8 → Except Reader.Fault (α × List UInt8)

namespace Reader

variable {α β : Type}

instance : Monad Reader where
  pure value := ⟨fun input => .ok (value, input)⟩
  bind reader next := ⟨fun input =>
    match reader.run input with
    | .error fault => .error fault
    | .ok (value, rest) => (next value).run rest⟩

/-- Stop with an error of the program. -/
def raise (message : String) : Reader α :=
  ⟨fun _ => .error (.thrown message)⟩

/-- The next byte. -/
def byte : Reader UInt8 :=
  ⟨fun
    | [] => .error .outOfRange
    | head :: rest => .ok (head, rest)⟩

/-- The next `count` bytes. -/
def bytes (count : Nat) : Reader (List UInt8) :=
  ⟨fun input =>
    if count ≤ input.length then .ok (input.take count, input.drop count)
    else .error .outOfRange⟩

/-- Split a buffer at its first zero, which is dropped. -/
def splitZero : List UInt8 → Except Fault (List UInt8 × List UInt8)
  | [] => .error .outOfRange
  | head :: input =>
      if head = 0 then .ok ([], input)
      else
        match splitZero input with
        | .error fault => .error fault
        | .ok (name, rest) => .ok (head :: name, rest)

/-- The bytes up to the next zero, which is consumed as well. -/
def untilZero : Reader (List UInt8) :=
  ⟨splitZero⟩

@[simp] theorem run_pure (value : α) (input : List UInt8) :
    (pure value : Reader α).run input = .ok (value, input) := rfl

@[simp] theorem run_raise (message : String) (input : List UInt8) :
    (raise message : Reader α).run input = .error (.thrown message) := rfl

@[simp] theorem run_byte_cons (head : UInt8) (rest : List UInt8) :
    byte.run (head :: rest) = .ok (head, rest) := rfl

theorem bind_of_ok
    {reader : Reader α}
    {next : α → Reader β}
    {input rest : List UInt8}
    {value : α}
    (read : reader.run input = .ok (value, rest)) :
    (reader >>= next).run input = (next value).run rest := by
  simp only [bind, read]

theorem bind_of_error
    {reader : Reader α}
    {next : α → Reader β}
    {input : List UInt8}
    {fault : Fault}
    (read : reader.run input = .error fault) :
    (reader >>= next).run input = .error fault := by
  simp only [bind, read]

/-- A sequence returns when both parts do. -/
theorem bind_eq_ok_iff
    {reader : Reader α}
    {next : α → Reader β}
    {input rest : List UInt8}
    {result : β} :
    (reader >>= next).run input = .ok (result, rest) ↔
      ∃ value middle, reader.run input = .ok (value, middle) ∧
        (next value).run middle = .ok (result, rest) := by
  cases read : reader.run input with
  | error fault => simp [bind_of_error read]
  | ok pair =>
      obtain ⟨value, middle⟩ := pair
      rw [bind_of_ok read]
      simp

theorem byte_eq_ok_iff
    {input rest : List UInt8}
    {head : UInt8} :
    byte.run input = .ok (head, rest) ↔ input = head :: rest := by
  cases input with
  | nil => simp [byte]
  | cons other tail => simp [byte]

theorem bytes_eq_ok_iff
    {count : Nat}
    {input rest read : List UInt8} :
    (bytes count).run input = .ok (read, rest) ↔
      read.length = count ∧ input = read ++ rest := by
  simp only [bytes]
  split <;> rename_i enough
  · simp only [Except.ok.injEq, Prod.mk.injEq]
    constructor
    · rintro ⟨rfl, rfl⟩
      exact ⟨List.length_take_of_le enough, (List.take_append_drop _ _).symm⟩
    · rintro ⟨rfl, rfl⟩
      simp
  · simp only [reduceCtorEq, false_iff, not_and]
    rintro rfl rfl
    simp at enough

theorem untilZero_eq_ok_iff
    {input rest name : List UInt8} :
    untilZero.run input = .ok (name, rest) ↔
      (0 : UInt8) ∉ name ∧ input = name ++ 0 :: rest := by
  show splitZero input = .ok (name, rest) ↔ _
  induction input generalizing name with
  | nil => simp [splitZero]
  | cons head input inductionHypothesis =>
      unfold splitZero
      split <;> rename_i zero
      · subst zero
        cases name with
        | nil => simp
        | cons first name =>
            simp only [Except.ok.injEq, Prod.mk.injEq, reduceCtorEq,
              false_and, List.cons_append, List.cons.injEq, false_iff]
            rintro ⟨absent, rfl, _⟩
            exact absent List.mem_cons_self
      · cases name with
        | nil =>
            simp only [List.nil_append, List.cons.injEq, zero, false_and,
              and_false, iff_false]
            split <;> simp
        | cons first name =>
            have step := @inductionHypothesis name
            simp only [List.cons_append, List.cons.injEq, List.mem_cons,
              not_or]
            split <;> rename_i read
            · simp only [read, reduceCtorEq, false_iff, not_and] at step
              simp only [reduceCtorEq, false_iff, not_and]
              rintro ⟨_, absent⟩ _
              exact step absent
            · simp only [read, Except.ok.injEq, Prod.mk.injEq] at step
              simp only [Except.ok.injEq, Prod.mk.injEq, List.cons.injEq]
              constructor
              · rintro ⟨⟨rfl, rfl⟩, rfl⟩
                obtain ⟨absent, same⟩ := step.mp ⟨rfl, rfl⟩
                exact ⟨⟨Ne.symm zero, absent⟩, rfl, same⟩
              · rintro ⟨⟨_, absent⟩, rfl, same⟩
                obtain ⟨rfl, rfl⟩ := step.mpr ⟨absent, same⟩
                exact ⟨⟨rfl, rfl⟩, rfl⟩

/-! ## Staying inside the buffer -/

/-- The reader does not leave the buffer. -/
def InRange (reader : Reader α) (input : List UInt8) : Prop :=
  reader.run input ≠ .error .outOfRange

/-- A sequence stays inside the buffer when its parts do. -/
theorem inRange_bind
    {reader : Reader α}
    {next : α → Reader β}
    {input : List UInt8} :
    InRange (reader >>= next) input ↔
      InRange reader input ∧ ∀ value middle,
        reader.run input = .ok (value, middle) →
          InRange (next value) middle := by
  unfold InRange
  cases read : reader.run input with
  | error fault => simp [bind_of_error read]
  | ok pair =>
      obtain ⟨value, middle⟩ := pair
      rw [bind_of_ok read]
      simp

@[simp] theorem inRange_pure (value : α) (input : List UInt8) :
    InRange (pure value) input := by
  simp [InRange]

@[simp] theorem inRange_raise (message : String) (input : List UInt8) :
    InRange (raise message : Reader α) input := by
  simp [InRange]

theorem inRange_bytes_iff
    {count : Nat}
    {input : List UInt8} :
    InRange (bytes count) input ↔ count ≤ input.length := by
  simp only [InRange, bytes]
  split <;> simp_all

/-- Readers that throw no error of their own. -/
def Quiet (reader : Reader α) : Prop :=
  ∀ input message, reader.run input ≠ .error (.thrown message)

/-- A quiet reader stays inside the buffer exactly when it returns. -/
theorem Quiet.inRange_iff
    {reader : Reader α}
    (quiet : Quiet reader)
    {input : List UInt8} :
    InRange reader input ↔
      ∃ value rest, reader.run input = .ok (value, rest) := by
  unfold InRange
  cases read : reader.run input with
  | ok pair => exact ⟨fun _ => ⟨pair.1, pair.2, rfl⟩, fun _ => by simp⟩
  | error fault =>
      cases fault with
      | outOfRange => simp
      | thrown message => exact absurd read (quiet input message)

/-- Behind a quiet reader, what matters is the rest it leaves. -/
theorem Quiet.inRange_bind_iff
    {reader : Reader α}
    (quiet : Quiet reader)
    {next : α → Reader β}
    {input : List UInt8} :
    InRange (reader >>= next) input ↔
      ∃ value rest, reader.run input = .ok (value, rest) ∧
        InRange (next value) rest := by
  rw [inRange_bind, quiet.inRange_iff]
  constructor
  · rintro ⟨⟨value, rest, read⟩, later⟩
    exact ⟨value, rest, read, later value rest read⟩
  · rintro ⟨value, rest, read, later⟩
    refine ⟨⟨value, rest, read⟩, fun other middle same => ?_⟩
    rw [read] at same
    cases same
    exact later

theorem quiet_pure (value : α) : Quiet (pure value) := by
  intro input message
  simp

theorem Quiet.bind
    {reader : Reader α}
    {next : α → Reader β}
    (quiet : Quiet reader)
    (later : ∀ value, Quiet (next value)) :
    Quiet (reader >>= next) := by
  intro input message
  cases read : reader.run input with
  | error fault =>
      rw [bind_of_error read]
      rintro same
      cases same
      exact quiet input message read
  | ok pair =>
      rw [bind_of_ok read]
      exact later _ _ _

theorem quiet_byte : Quiet byte := by
  intro input message
  cases input <;> simp [byte]

theorem quiet_bytes (count : Nat) : Quiet (bytes count) := by
  intro input message
  simp only [bytes]
  split <;> simp

theorem quiet_untilZero : Quiet untilZero := by
  intro input message
  show splitZero input ≠ .error (.thrown message)
  induction input with
  | nil => simp [splitZero]
  | cons head input inductionHypothesis =>
      unfold splitZero
      split
      · simp
      · split <;> rename_i read
        · rw [← read]
          exact fun same => inductionHypothesis (by rw [← same, read])
        · simp

/-- What a reader returns, when it does, has a property. -/
def Ensures (reader : Reader α) (property : α → Prop) : Prop :=
  ∀ ⦃input value rest⦄, reader.run input = .ok (value, rest) → property value

theorem ensures_pure
    {property : α → Prop}
    {value : α}
    (holds : property value) :
    Ensures (pure value) property := by
  intro input result rest read
  cases read
  exact holds

theorem ensures_raise (message : String) (property : α → Prop) :
    Ensures (raise message) property := by
  intro input result rest read
  cases read

theorem Ensures.bind
    {reader : Reader α}
    {next : α → Reader β}
    {middle : α → Prop}
    {property : β → Prop}
    (first : Ensures reader middle)
    (later : ∀ value, middle value → Ensures (next value) property) :
    Ensures (reader >>= next) property := by
  intro input result rest read
  obtain ⟨value, between, firstRead, laterRead⟩ := bind_eq_ok_iff.mp read
  exact later value (first firstRead) laterRead

/-- A part whose result does not matter. -/
theorem ensures_bind_of_forall
    {reader : Reader α}
    {next : α → Reader β}
    {property : β → Prop}
    (later : ∀ value, Ensures (next value) property) :
    Ensures (reader >>= next) property := by
  intro input result rest read
  obtain ⟨value, between, -, laterRead⟩ := bind_eq_ok_iff.mp read
  exact later value laterRead

end Reader

/-! ## Big-endian numbers -/

namespace BigEndian

/-- The number whose digits to base 256 are the bytes, highest first. -/
def ofBytes (bytes : List UInt8) : Nat :=
  bytes.foldl (fun value byte => value * 256 + byte.toNat) 0

/-- The last `width` digits of a number to base 256, highest first. -/
def toBytes : Nat → Nat → List UInt8
  | 0, _ => []
  | width + 1, value =>
      toBytes width (value / 256) ++ [UInt8.ofNat (value % 256)]

@[simp] theorem length_toBytes (width value : Nat) :
    (toBytes width value).length = width := by
  induction width generalizing value with
  | zero => rfl
  | succ width inductionHypothesis =>
      simp [toBytes, inductionHypothesis]

/-- The digits one by one. -/
theorem toBytes_eq_map (width value : Nat) :
    toBytes width value = (List.range width).reverse.map
      fun index => UInt8.ofNat (value / 256 ^ index % 256) := by
  induction width generalizing value with
  | zero => rfl
  | succ width inductionHypothesis =>
      rw [toBytes, inductionHypothesis, List.range_succ_eq_map,
        List.reverse_cons, List.map_append, ← List.map_reverse, List.map_map]
      simp [Nat.pow_succ', Nat.div_div_eq_div_mul, Function.comp_def]

theorem ofBytes_append_singleton (bytes : List UInt8) (byte : UInt8) :
    ofBytes (bytes ++ [byte]) = ofBytes bytes * 256 + byte.toNat := by
  simp [ofBytes]

theorem ofBytes_lt (bytes : List UInt8) :
    ofBytes bytes < 256 ^ bytes.length := by
  induction bytes using List.reverseRecOn with
  | nil => simp [ofBytes]
  | append_singleton bytes byte inductionHypothesis =>
      have digit := byte.toNat_lt
      rw [ofBytes_append_singleton, List.length_append,
        List.length_singleton, Nat.pow_succ]
      omega

theorem toBytes_ofBytes (bytes : List UInt8) :
    toBytes bytes.length (ofBytes bytes) = bytes := by
  induction bytes using List.reverseRecOn with
  | nil => rfl
  | append_singleton bytes byte inductionHypothesis =>
      have digit := byte.toNat_lt
      have quotient : (ofBytes bytes * 256 + byte.toNat) / 256 =
          ofBytes bytes := by omega
      have remainder : (ofBytes bytes * 256 + byte.toNat) % 256 =
          byte.toNat := by omega
      rw [ofBytes_append_singleton, List.length_append,
        List.length_singleton, toBytes, quotient, remainder,
        inductionHypothesis]
      simp

theorem ofBytes_toBytes
    {width value : Nat}
    (bound : value < 256 ^ width) :
    ofBytes (toBytes width value) = value := by
  induction width generalizing value with
  | zero =>
      have zero : value = 0 := by simpa using bound
      simp [toBytes, ofBytes, zero]
  | succ width inductionHypothesis =>
      rw [Nat.pow_succ] at bound
      have smaller : value / 256 < 256 ^ width :=
        Nat.div_lt_of_lt_mul (by omega)
      have digit : (UInt8.ofNat (value % 256)).toNat = value % 256 := by
        rw [UInt8.toNat_ofNat']
        omega
      rw [toBytes, ofBytes_append_singleton, inductionHypothesis smaller,
        digit]
      omega

/-- An input starts with the digits of a number exactly when it starts with
that many bytes representing it. -/
theorem exists_bytes_iff
    {width value : Nat}
    {input rest : List UInt8} :
    (∃ bytes : List UInt8, bytes.length = width ∧ value = ofBytes bytes ∧
        input = bytes ++ rest) ↔
      value < 256 ^ width ∧ input = toBytes width value ++ rest := by
  constructor
  · rintro ⟨bytes, rfl, rfl, rfl⟩
    exact ⟨ofBytes_lt bytes, by rw [toBytes_ofBytes]⟩
  · rintro ⟨bound, rfl⟩
    exact ⟨toBytes width value, length_toBytes width value,
      (ofBytes_toBytes bound).symm, rfl⟩

end BigEndian
