import Mathlib

/-!
# JSON documents

Values made of null, natural numbers, strings and objects whose fields keep
their order.  The library that writes and reads their texts is a parameter: it
may refuse to write a value, and what a program may rely on is said by laws.
From them follows that a text of one value a line can be read back.
-/

namespace Json

inductive Value
  | null
  | number (value : Nat)
  | text (value : String)
  | object (fields : List (String × Value))

/-- Assign a field: in its place if there is one of that name, behind the
others otherwise. -/
def assignField (key : String) (value : Value) :
    List (String × Value) → List (String × Value)
  | [] => [(key, value)]
  | field :: fields =>
      if field.1 = key then (key, value) :: fields
      else field :: assignField key value fields

/-- Assign a field of an object; null becomes an object with it. -/
def Value.assign (document : Value) (key : String) (value : Value) : Value :=
  match document with
  | .null => .object [(key, value)]
  | .object fields => .object (assignField key value fields)
  | other => other

theorem assignField_of_notMem
    {fields : List (String × Value)}
    {key : String}
    (new : key ∉ fields.map Prod.fst)
    (value : Value) :
    assignField key value fields = fields ++ [(key, value)] := by
  induction fields with
  | nil => rfl
  | cons field fields inductionHypothesis =>
      rw [List.map_cons, List.mem_cons, not_or] at new
      rw [assignField, if_neg (Ne.symm new.1), inductionHypothesis new.2,
        List.cons_append]

/-! ## Texts -/

/-- What writes values and reads texts.  Either may be refused. -/
structure Library where
  dump : Value → Option (List Char)
  parse : List Char → Option Value

namespace Library

/-- No two values are written alike. -/
def Separates (library : Library) : Prop :=
  ∀ ⦃value other text⦄, library.dump value = some text →
    library.dump other = some text → value = other

/-- What is written has no line break, and is read as the value it was written
for. -/
structure Lawful (library : Library) : Prop where
  single : ∀ ⦃value text⦄, library.dump value = some text → '\n' ∉ text
  parse_dump : ∀ ⦃value text⦄, library.dump value = some text →
    library.parse text = some value

end Library

/-- The lines of a text, each ended by a line break. -/
def lines : List Char → List (List Char)
  | [] => []
  | '\n' :: rest => [] :: lines rest
  | c :: rest =>
      match lines rest with
      | [] => [[c]]
      | line :: others => (c :: line) :: others

theorem lines_append
    {line : List Char}
    (single : '\n' ∉ line)
    (rest : List Char) :
    lines (line ++ '\n' :: rest) = line :: lines rest := by
  induction line with
  | nil => simp [lines]
  | cons c line inductionHypothesis =>
      rw [List.mem_cons, not_or] at single
      have notBreak : c ≠ '\n' := fun same => single.1 same.symm
      rw [List.cons_append, lines]
      · rw [inductionHypothesis single.2]
      · simpa using notBreak

/-- Reading the lines of a text gives the values they were written for. -/
theorem Library.Lawful.parse_lines
    {library : Library}
    (lawful : library.Lawful)
    {values : List Value}
    {texts : List (List Char)}
    (written : values.map library.dump = texts.map some) :
    (lines (texts.flatMap (· ++ ['\n']))).map library.parse =
      values.map some := by
  induction values generalizing texts with
  | nil =>
      rw [List.map_nil, eq_comm, List.map_eq_nil_iff] at written
      subst written
      rfl
  | cons value values inductionHypothesis =>
      cases texts with
      | nil => cases written
      | cons text texts =>
          rw [List.map_cons, List.map_cons, List.cons.injEq] at written
          rw [List.flatMap_cons, List.append_assoc, List.singleton_append,
            lines_append (lawful.single written.1), List.map_cons,
            lawful.parse_dump written.1, inductionHypothesis written.2,
            List.map_cons]

end Json
