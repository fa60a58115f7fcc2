import Mathlib

/-!
# Comparisons in a filter

A filter that compares a field with a text: an identifier, `==` and a literal
between double quotes, with blanks in between.  The literal ends at the next
quote that no backslash precedes.  What a character stands for after a
backslash is left open.

A text that is put between quotes as it is denotes itself exactly when it has
neither a quote nor a backslash.
-/

namespace Comparison

variable (escape : Char → Char)

/-- Read a literal after its opening quote: what it denotes, and what follows
its closing quote. -/
def read : List Char → Option (List Char × List Char)
  | [] => none
  | [c] => if c = '"' then some ([], []) else none
  | c :: next :: rest =>
      if c = '"' then some ([], next :: rest)
      else if c = '\\' then (read rest).map (Prod.map (escape next :: ·) id)
      else (read (next :: rest)).map (Prod.map (c :: ·) id)

/-- Blanks between the parts of a filter. -/
def blank (c : Char) : Bool :=
  c ∈ [' ', '\t', '\n', '\r']

/-- Characters of an identifier. -/
def letter (c : Char) : Bool :=
  c.isAlphanum || c == '_'

/-- A name that can be written into a filter as it is. -/
def Identifier (name : List Char) : Prop :=
  name ≠ [] ∧ (∀ c ∈ name, letter c = true) ∧
    name.head?.all fun c => ¬c.isDigit

instance (name : List Char) : Decidable (Identifier name) :=
  have := List.decidableBAll (letter · = true) name
  inferInstanceAs (Decidable (_ ∧ _))

/-- A text that can be written between quotes as it is. -/
def Plain (text : List Char) : Prop :=
  ∀ c ∈ text, c ≠ '"' ∧ c ≠ '\\'

instance (text : List Char) : Decidable (Plain text) :=
  List.decidableBAll (fun c => c ≠ '"' ∧ c ≠ '\\') text

/-- Read the literal that ends a comparison. -/
def literal? (text : List Char) : Option (List Char) :=
  match text.dropWhile blank with
  | '"' :: rest =>
      (read escape rest).bind fun found =>
        if found.2.all blank then some found.1 else none
  | _ => none

/-- Read a filter that is a single comparison for equality. -/
def comparison? (filter : String) : Option (String × String) :=
  let name := filter.toList.takeWhile letter
  if Identifier name then
    match (filter.toList.dropWhile letter).dropWhile blank with
    | '=' :: '=' :: rest =>
        (literal? escape rest).map fun value =>
          (String.ofList name, String.ofList value)
    | _ => none
  else none

/-- The rows that a comparison selects, where a row gives texts to its
fields. -/
def Selects (filter : String) (row : String → Option String) : Prop :=
  ∃ comparison, comparison? escape filter = some comparison ∧
    row comparison.1 = some comparison.2

/-- A field compared with a text, as it is. -/
def equality (field value : String) : String :=
  field ++ " == \"" ++ value ++ "\""

variable {escape}

theorem read_append
    {text : List Char}
    (plain : Plain text)
    (rest : List Char) :
    read escape (text ++ '"' :: rest) = some (text, rest) := by
  induction text with
  | nil => cases rest <;> rfl
  | cons c text inductionHypothesis =>
      obtain ⟨⟨unquoted, unescaped⟩, plain⟩ := List.forall_mem_cons.mp plain
      have later := inductionHypothesis plain
      cases text with
      | nil =>
          rw [List.nil_append] at later
          rw [List.singleton_append, read, if_neg unquoted, if_neg unescaped,
            later]
          rfl
      | cons next text =>
          rw [List.cons_append] at later
          rw [List.cons_append, List.cons_append, read, if_neg unquoted,
            if_neg unescaped, later]
          rfl

/-- A literal denotes fewer characters than it has, unless it is plain. -/
theorem length_le_of_read
    {text value rest : List Char}
    (found : read escape text = some (value, rest)) :
    value.length + rest.length + 1 ≤ text.length ∧
      (value.length + rest.length + 1 = text.length → Plain value) := by
  fun_induction read escape text generalizing value with
  | case1 => cases found
  | case2 =>
      cases found
      exact ⟨Nat.le_refl _, fun _ _ member => nomatch member⟩
  | case3 => cases found
  | case4 next tail =>
      cases found
      exact ⟨Nat.le_of_eq (by simp), fun _ _ member => nomatch member⟩
  | case5 next tail _ inductionHypothesis =>
      obtain ⟨⟨inner, _⟩, read, same⟩ := Option.map_eq_some_iff.mp found
      cases same
      have shorter := (inductionHypothesis read).1
      simp only [List.length_cons]
      constructor
      · omega
      · intro whole
        omega
  | case6 c next tail unquoted unescaped inductionHypothesis =>
      obtain ⟨⟨inner, _⟩, read, same⟩ := Option.map_eq_some_iff.mp found
      cases same
      obtain ⟨shorter, plain⟩ := inductionHypothesis read
      simp only [List.length_cons] at shorter plain ⊢
      constructor
      · omega
      · intro whole
        exact List.forall_mem_cons.mpr
          ⟨⟨unquoted, unescaped⟩, plain (by omega)⟩

/-- A text between quotes denotes itself exactly when it is plain. -/
theorem literal?_eq_some_iff
    {text : List Char} :
    literal? escape (' ' :: '"' :: (text ++ ['"'])) = some text ↔
      Plain text := by
  have opened : literal? escape (' ' :: '"' :: (text ++ ['"'])) =
      (read escape (text ++ ['"'])).bind fun found =>
        if found.2.all blank then some found.1 else none := rfl
  rw [opened]
  constructor
  · intro denotes
    obtain ⟨⟨value, rest⟩, found, same⟩ := Option.bind_eq_some_iff.mp denotes
    obtain ⟨_, rfl⟩ : _ ∧ value = text := by
      simpa using same
    obtain ⟨shorter, plain⟩ := length_le_of_read found
    refine plain ?_
    simp only [List.length_append, List.length_singleton] at shorter ⊢
    omega
  · intro plain
    rw [read_append plain]
    rfl

theorem identifier_of_comparison?
    {filter field value : String}
    (found : comparison? escape filter = some (field, value)) :
    Identifier field.toList := by
  unfold comparison? at found
  dsimp only at found
  split at found <;> rename_i identifier
  · split at found
    · obtain ⟨_, _, same⟩ := Option.map_eq_some_iff.mp found
      cases same
      rw [String.toList_ofList]
      exact identifier
    · cases found
  · cases found

theorem comparison?_equality
    {field : String}
    (identifier : Identifier field.toList)
    (value : String) :
    comparison? escape (equality field value) =
      (literal? escape (' ' :: '"' :: (value.toList ++ ['"']))).map
        fun denoted => (field, String.ofList denoted) := by
  have text : (equality field value).toList = field.toList ++
      (' ' :: '=' :: '=' :: ' ' :: '"' :: (value.toList ++ ['"'])) := by
    simp [equality]
  have name : (equality field value).toList.takeWhile letter =
      field.toList := by
    rw [text, List.takeWhile_append_of_pos identifier.2.1]
    simp [letter]
  have rest : (equality field value).toList.dropWhile letter =
      ' ' :: '=' :: '=' :: ' ' :: '"' :: (value.toList ++ ['"']) := by
    rw [text, List.dropWhile_append_of_pos identifier.2.1]
    simp [letter]
  simp only [comparison?, name, rest, if_pos identifier, String.ofList_toList]
  rfl

/-- The comparison of a field with a text, as they are, is read as such exactly
when the field is an identifier and the text is plain. -/
theorem comparison?_equality_iff
    {field value : String} :
    comparison? escape (equality field value) = some (field, value) ↔
      Identifier field.toList ∧ Plain value.toList := by
  constructor
  · intro found
    have identifier := identifier_of_comparison? found
    rw [comparison?_equality identifier] at found
    obtain ⟨denoted, read, same⟩ := Option.map_eq_some_iff.mp found
    cases same
    rw [String.toList_ofList] at read ⊢
    exact ⟨identifier, literal?_eq_some_iff.mp read⟩
  · rintro ⟨identifier, plain⟩
    rw [comparison?_equality identifier, literal?_eq_some_iff.mpr plain,
      Option.map_some, String.ofList_toList]

end Comparison
