import Mathlib

/-!
# Hexadecimal numbers in formatted input and output

What `printf` writes and `scanf` reads for a format that consists of `%X` and
of characters that stand for themselves, as the C standard has it.  Writing is
plain: upper-case digits without leading zeros.  Reading also takes blanks, a
sign, the mark `0x`, digits of either case and leading zeros.

A text made from a format by putting numerals for its conversions is read back
as the numbers they denote, provided that every conversion is followed by the
end of the format or by a character that could not belong to a numeral.
-/

namespace Hexadecimal

/-! ## Numerals -/

/-- The value of a digit of either case. -/
def digit? (c : Char) : Option Nat :=
  if '0' ≤ c ∧ c ≤ '9' then some (c.toNat - '0'.toNat)
  else if 'A' ≤ c ∧ c ≤ 'F' then some (c.toNat - 'A'.toNat + 10)
  else if 'a' ≤ c ∧ c ≤ 'f' then some (c.toNat - 'a'.toNat + 10)
  else none

/-- The upper-case digit with a value. -/
def upperDigit (value : Nat) : Char :=
  if value < 10 then Char.ofNat ('0'.toNat + value)
  else Char.ofNat ('A'.toNat + (value - 10))

/-- The number a sequence of digits denotes, highest first. -/
def numeral? (text : List Char) : Option Nat :=
  if text = [] then none
  else (text.mapM digit?).map fun digits => Nat.ofDigits 16 digits.reverse

/-- The numeral `%X` writes. -/
def print (value : Nat) : List Char :=
  if value = 0 then ['0'] else (Nat.digits 16 value).reverse.map upperDigit

theorem digit?_upperDigit :
    ∀ value < 16, digit? (upperDigit value) = some value := by
  decide

theorem mapM_digit?_upperDigit
    {digits : List Nat}
    (small : ∀ value ∈ digits, value < 16) :
    (digits.map upperDigit).mapM digit? = some digits := by
  induction digits with
  | nil => rfl
  | cons value digits inductionHypothesis =>
      rw [List.forall_mem_cons] at small
      simp [digit?_upperDigit value small.1, inductionHypothesis small.2]

/-- What is printed denotes the number. -/
theorem numeral?_print (value : Nat) : numeral? (print value) = some value := by
  by_cases zero : value = 0
  · subst zero
    decide
  · have digits : Nat.digits 16 value ≠ [] :=
      Nat.digits_ne_nil_iff_ne_zero.mpr zero
    have small : ∀ digit ∈ (Nat.digits 16 value).reverse, digit < 16 := by
      intro digit member
      exact Nat.digits_lt_base (by decide) (List.mem_reverse.mp member)
    rw [print, if_neg zero, numeral?, if_neg (by simpa using digits),
      mapM_digit?_upperDigit small, Option.map_some, List.reverse_reverse,
      Nat.ofDigits_digits]

theorem length_print_le
    {value width : Nat}
    (positive : 0 < width)
    (bound : value < 16 ^ width) :
    (print value).length ≤ width := by
  unfold print
  split
  · exact positive
  · rw [List.length_map, List.length_reverse]
    exact (Nat.digits_length_le_iff (by decide) value).mpr bound

/-- A numeral consists of digits. -/
theorem digit?_isSome_of_numeral?
    {text : List Char}
    {value : Nat}
    (denotes : numeral? text = some value) :
    ∀ c ∈ text, (digit? c).isSome = true := by
  have read : (text.mapM digit?).isSome = true := by
    unfold numeral? at denotes
    split at denotes
    · cases denotes
    · rw [← Option.isSome_map, denotes]
      rfl
  clear denotes
  induction text with
  | nil => simp
  | cons head text inductionHypothesis =>
      rw [List.mapM_cons] at read
      cases first : digit? head with
      | none => simp [first] at read
      | some digit =>
          rw [List.forall_mem_cons]
          refine ⟨by rw [first]; rfl, inductionHypothesis ?_⟩
          cases others : text.mapM digit? with
          | none => simp [first, others] at read
          | some digits => rfl

/-! ## Formats -/

/-- `isspace` in the C locale. -/
def isSpace (c : Char) : Bool :=
  c ∈ [' ', '\t', '\n', '\x0b', '\x0c', '\r']

/-- A character of a format that stands for itself. -/
def isOrdinary (c : Char) : Bool :=
  !isSpace c && c != '%' && c != '\x00'

/-- A part of a format. -/
inductive Directive
  | literal (c : Char) (ordinary : isOrdinary c = true)
  /-- `%X` -/
  | hex

/-- The text of a format with numerals for its conversions. -/
def fill : List Directive → List (List Char) → List Char
  | [], _ => []
  | .literal c _ :: format, numerals => c :: fill format numerals
  -- There is no argument for the conversion, which has no defined meaning.
  | .hex :: _, [] => []
  | .hex :: format, numeral :: numerals => numeral ++ fill format numerals

/-- `snprintf` into a buffer of this size. -/
def snprintf (size : Nat) (format : List Directive) (values : List UInt32) :
    String :=
  String.ofList ((fill format
    (values.map fun value => print value.toNat)).take (size - 1))

/-- The rest of a text after a sign. -/
def dropSign (input : List Char) : List Char :=
  if input.head? = some '-' ∨ input.head? = some '+' then input.tail
  else input

/-- The rest of a text after the mark of a hexadecimal number. -/
def dropMark (input : List Char) : List Char :=
  if input.take 2 = ['0', 'x'] ∨ input.take 2 = ['0', 'X'] then input.drop 2
  else input

/-- The number at the front of a text, and the rest.  A sign or a mark without
a digit after it is no number. -/
def item? (input : List Char) : Option (Int × List Char) :=
  let visible := input.dropWhile isSpace
  let digits := dropMark (dropSign visible)
  (numeral? (digits.takeWhile fun c => (digit? c).isSome)).map fun value =>
    (if visible.head? = some '-' then -(value : Int) else value,
      digits.dropWhile fun c => (digit? c).isSome)

/-- The values `scanf` stores for the conversions of a format, as far as the
text matches it.  There is none when a number does not fit, in which case the
behaviour is undefined. -/
def scanf : List Directive → List Char → Option (List UInt32)
  | [], _ => some []
  | .literal _ _ :: _, [] => some []
  | .literal c _ :: format, head :: input =>
      if head = c then scanf format input else some []
  | .hex :: format, input =>
      match item? input with
      | none => some []
      | some (value, rest) =>
          if 0 ≤ value ∧ value < 2 ^ 32 then
            (scanf format rest).map (UInt32.ofNat value.toNat :: ·)
          else none

/-- `sscanf`, which sees a string up to its first null character. -/
def sscanf (text : String) (format : List Directive) : Option (List UInt32) :=
  scanf format (text.toList.takeWhile (· ≠ '\x00'))

/-! ## Reading a numeral -/

/-- A text that does not go on with a numeral. -/
def Ends (rest : List Char) : Prop :=
  ∀ c ∈ rest.head?, digit? c = none ∧ c ≠ 'x' ∧ c ≠ 'X'

section Numeral

variable {numeral rest : List Char}
variable {value : Nat}

theorem exists_cons_of_numeral? (denotes : numeral? numeral = some value) :
    ∃ head tail, numeral = head :: tail ∧ (digit? head).isSome = true := by
  cases numeral with
  | nil => cases denotes
  | cons head tail =>
      exact ⟨head, tail, rfl,
        digit?_isSome_of_numeral? denotes head List.mem_cons_self⟩

theorem ne_of_digit?
    {c other : Char}
    (digit : (digit? c).isSome = true)
    (undigit : digit? other = none) :
    c ≠ other := by
  rintro rfl
  rw [undigit] at digit
  cases digit

theorem not_isSpace_of_digit?
    {c : Char}
    (digit : (digit? c).isSome = true) :
    ¬isSpace c = true := by
  intro space
  simp only [isSpace, List.mem_cons, List.not_mem_nil, or_false,
    decide_eq_true_eq] at space
  rcases space with rfl | rfl | rfl | rfl | rfl | rfl <;>
    exact absurd digit (by decide)

theorem dropMark_append
    (denotes : numeral? numeral = some value)
    (ends : Ends rest) :
    dropMark (numeral ++ rest) = numeral ++ rest := by
  have digits := digit?_isSome_of_numeral? denotes
  have unmarked : ∀ mark, digit? mark = none →
      (∀ c ∈ rest.head?, c ≠ mark) →
        (numeral ++ rest).take 2 ≠ ['0', mark] := by
    intro mark undigit apart marked
    -- The mark would be the second digit, or what follows a single one.
    match numeral, denotes, digits with
    | [], denotes, _ => cases denotes
    | [head], _, _ =>
        cases rest with
        | nil => simp at marked
        | cons c rest =>
            refine apart c rfl ?_
            simpa using (List.cons.inj marked).2
    | head :: second :: tail, _, digits =>
        refine ne_of_digit? (digits second (by simp)) undigit ?_
        simpa using (List.cons.inj marked).2
  refine if_neg (not_or.mpr ⟨unmarked 'x' (by decide) fun c first => ?_,
    unmarked 'X' (by decide) fun c first => ?_⟩)
  · exact (ends c first).2.1
  · exact (ends c first).2.2

/-- A numeral is read to its end. -/
theorem item?_append
    (denotes : numeral? numeral = some value)
    (ends : Ends rest) :
    item? (numeral ++ rest) = some ((value : Int), rest) := by
  have digits := digit?_isSome_of_numeral? denotes
  obtain ⟨head, tail, same, digit⟩ := exists_cons_of_numeral? denotes
  have visible : (numeral ++ rest).dropWhile isSpace = numeral ++ rest := by
    rw [same, List.cons_append,
      List.dropWhile_cons_of_neg (not_isSpace_of_digit? digit)]
  have first : (numeral ++ rest).head? = some head := by
    rw [same]
    rfl
  have minus : head ≠ '-' := ne_of_digit? digit (by decide)
  have plus : head ≠ '+' := ne_of_digit? digit (by decide)
  have unsigned : dropSign (numeral ++ rest) = numeral ++ rest := by
    simp [dropSign, first, minus, plus]
  have stop : rest.takeWhile (fun c => (digit? c).isSome) = [] ∧
      rest.dropWhile (fun c => (digit? c).isSome) = rest := by
    cases rest with
    | nil => exact ⟨rfl, rfl⟩
    | cons c rest =>
        have undigit := (ends c rfl).1
        simp [undigit]
  simp only [item?, visible, unsigned, dropMark_append denotes ends]
  rw [List.takeWhile_append_of_pos digits, List.dropWhile_append_of_pos digits,
    stop.1, stop.2, List.append_nil, denotes, first]
  simp [minus]

end Numeral

/-! ## Reading back what was written -/

/-- What follows a conversion could not belong to a numeral. -/
def Delimited : List Directive → Prop
  | [] => True
  | .literal c _ :: _ => digit? c = none ∧ c ≠ 'x' ∧ c ≠ 'X'
  | .hex :: _ => False

/-- Conversions are delimited. -/
def Separated : List Directive → Prop
  | [] => True
  | .literal _ _ :: format => Separated format
  | .hex :: format => Delimited format ∧ Separated format

/-- The number of conversions. -/
def conversions : List Directive → Nat
  | [] => 0
  | .literal _ _ :: format => conversions format
  | .hex :: format => conversions format + 1

variable {format : List Directive}
variable {numerals : List (List Char)}
variable {values : List UInt32}

theorem ends_fill
    (delimited : Delimited format)
    (numerals : List (List Char)) :
    Ends (fill format numerals) := by
  match format, delimited with
  | [], _ => simp [Ends, fill]
  | .literal c _ :: format, apart => simpa [Ends, fill, Delimited] using apart

/-- A text that was made from a format is read back as the numbers that were
put into it. -/
theorem scanf_fill
    (separated : Separated format)
    (denote : List.Forall₂
      (fun numeral value => numeral? numeral = some value.toNat)
      numerals values)
    (count : conversions format = values.length) :
    scanf format (fill format numerals) = some values := by
  induction format generalizing numerals values with
  | nil =>
      cases List.eq_nil_of_length_eq_zero count.symm
      rfl
  | cons directive format inductionHypothesis =>
      cases directive with
      | literal c ordinary =>
          rw [fill, scanf, if_pos rfl]
          exact inductionHypothesis separated denote count
      | hex =>
          cases denote with
          | nil => cases count
          | @cons numeral value numerals values denotes others =>
              have bound : (value.toNat : Int) < 2 ^ 32 := by
                exact_mod_cast value.toNat_lt
              rw [fill, scanf,
                item?_append denotes (ends_fill separated.1 numerals)]
              simp only [Int.natCast_nonneg, bound, and_self, if_true,
                Int.toNat_natCast, UInt32.ofNat_toNat]
              rw [inductionHypothesis separated.2 others
                (Nat.succ.inj count), Option.map_some]

theorem null_notMem_fill
    (denote : List.Forall₂
      (fun numeral value => numeral? numeral = some value.toNat)
      numerals values) :
    '\x00' ∉ fill format numerals := by
  induction format generalizing numerals values with
  | nil => simp [fill]
  | cons directive format inductionHypothesis =>
      cases directive with
      | literal c ordinary =>
          rw [fill, List.mem_cons, not_or]
          refine ⟨?_, inductionHypothesis denote⟩
          rintro rfl
          cases ordinary
      | hex =>
          cases denote with
          | nil => simp [fill]
          | cons denotes others =>
              rw [fill, List.mem_append, not_or]
              refine ⟨fun member => ?_, inductionHypothesis others⟩
              cases digit?_isSome_of_numeral? denotes _ member

theorem sscanf_fill
    (separated : Separated format)
    (denote : List.Forall₂
      (fun numeral value => numeral? numeral = some value.toNat)
      numerals values)
    (count : conversions format = values.length) :
    sscanf (String.ofList (fill format numerals)) format = some values := by
  have whole : (fill format numerals).takeWhile (· ≠ '\x00') =
      fill format numerals := by
    rw [List.takeWhile_eq_self_iff]
    intro c member
    exact decide_eq_true fun null => null_notMem_fill denote (null ▸ member)
  rw [sscanf, String.toList_ofList, whole, scanf_fill separated denote count]

/-- What `snprintf` wrote is read back if it fitted into the buffer. -/
theorem sscanf_snprintf
    {size : Nat}
    (separated : Separated format)
    (count : conversions format = values.length)
    (fits : (fill format (values.map fun value => print value.toNat)).length <
      size) :
    sscanf (snprintf size format values) format = some values := by
  rw [snprintf, List.take_of_length_le (Nat.le_sub_one_of_lt fits)]
  refine sscanf_fill separated ?_ count
  rw [List.forall₂_map_left_iff, List.forall₂_same]
  exact fun value _ => numeral?_print value.toNat

end Hexadecimal
