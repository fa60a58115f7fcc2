import Walkrie.Library.Assoc

/-!
# Connection strings

The text `PQconnectdb` reads: settings separated by blanks, each a keyword, an
equals sign and a value.  A value ends at a blank, unless it starts with a
quote; then it ends at the next quote.  A backslash takes the next character
as it stands.  The reader sees a C string, so nothing after a null character.

A value that needs no quoting is read back as it was written, whatever
follows.  An empty one is, if nothing follows.
-/

namespace Conninfo

/-- A keyword with its value. -/
abbrev Setting := String × String

/-- `isspace` in the C locale. -/
def blank (c : Char) : Bool :=
  c ∈ [' ', '\t', '\n', '\x0b', '\x0c', '\r']

/-- Where the reader stands, with the texts it has read. -/
inductive State
  | between
  | keyword (name : List Char)
  | beforeEquals (name : List Char)
  | afterEquals (name : List Char)
  | unquoted (name value : List Char)
  | unquotedEscape (name value : List Char)
  | quoted (name value : List Char)
  | quotedEscape (name value : List Char)

/-- The setting that has been read. -/
def setting (name value : List Char) : Setting :=
  (String.ofList name, String.ofList value)

/-- Read the rest of a text; `none` is a syntax error. -/
def read : State → List Char → Option (List Setting)
  | .between, [] => some []
  | .keyword _, [] => none
  | .beforeEquals _, [] => none
  | .afterEquals name, [] => some [setting name []]
  | .unquoted name value, [] => some [setting name value]
  | .unquotedEscape name value, [] => some [setting name value]
  | .quoted _ _, [] => none
  | .quotedEscape _ _, [] => none
  | .between, c :: rest =>
      if blank c then read .between rest
      else if c = '=' then read (.afterEquals []) rest
      else read (.keyword [c]) rest
  | .keyword name, c :: rest =>
      if c = '=' then read (.afterEquals name) rest
      else if blank c then read (.beforeEquals name) rest
      else read (.keyword (name ++ [c])) rest
  | .beforeEquals name, c :: rest =>
      if c = '=' then read (.afterEquals name) rest
      else if blank c then read (.beforeEquals name) rest
      else none
  | .afterEquals name, c :: rest =>
      if blank c then read (.afterEquals name) rest
      else if c = '\'' then read (.quoted name []) rest
      else if c = '\\' then read (.unquotedEscape name []) rest
      else read (.unquoted name [c]) rest
  | .unquoted name value, c :: rest =>
      if blank c then (read .between rest).map (setting name value :: ·)
      else if c = '\\' then read (.unquotedEscape name value) rest
      else read (.unquoted name (value ++ [c])) rest
  | .unquotedEscape name value, c :: rest =>
      read (.unquoted name (value ++ [c])) rest
  | .quoted name value, c :: rest =>
      if c = '\\' then read (.quotedEscape name value) rest
      else if c = '\'' then (read .between rest).map (setting name value :: ·)
      else read (.quoted name (value ++ [c])) rest
  | .quotedEscape name value, c :: rest =>
      read (.quoted name (value ++ [c])) rest

/-- The settings of a text, in order. -/
def parse (text : String) : Option (List Setting) :=
  read .between (text.toList.takeWhile (· ≠ '\x00'))

/-- The value of a keyword: a later setting replaces an earlier one. -/
def value? (settings : List Setting) (keyword : String) : Option String :=
  Assoc.last settings keyword

/-- One setting, with the blank that separates it from what precedes it. -/
def write (setting : Setting) : String :=
  " " ++ setting.1 ++ "=" ++ setting.2

def render (settings : List Setting) : String :=
  String.join (settings.map write)

/-! ## Keywords and values that need no quoting -/

/-- A character the reader takes as it stands, within a value. -/
def Ordinary (c : Char) : Prop :=
  blank c = false ∧ c ≠ '\\' ∧ c ≠ '\x00'

instance (c : Char) : Decidable (Ordinary c) :=
  inferInstanceAs (Decidable (_ ∧ _))

/-- A value the reader takes as it stands. -/
structure Plain (value : String) : Prop where
  characters : ∀ c ∈ value.toList, Ordinary c
  start : value.toList.head? ≠ some '\''

/-- A keyword the reader takes as it stands, up to its equals sign. -/
structure Keyword (name : String) : Prop where
  plain : Plain name
  closed : '=' ∉ name.toList

theorem plain_iff
    {value : String} :
    Plain value ↔
      (∀ c ∈ value.toList, Ordinary c) ∧ value.toList.head? ≠ some '\'' :=
  ⟨fun plain => ⟨plain.characters, plain.start⟩, fun both => ⟨both.1, both.2⟩⟩

instance (value : String) : Decidable (Plain value) :=
  have := List.decidableBAll Ordinary value.toList
  decidable_of_iff _ plain_iff.symm

instance (name : String) : Decidable (Keyword name) :=
  decidable_of_iff (Plain name ∧ '=' ∉ name.toList)
    ⟨fun both => ⟨both.1, both.2⟩, fun keyword => ⟨keyword.1, keyword.2⟩⟩

section Reading

variable {name value rest : List Char}

theorem read_keyword
    (start : List Char)
    (ordinary : ∀ c ∈ name, Ordinary c)
    (closed : '=' ∉ name) :
    read (.keyword start) (name ++ '=' :: rest) =
      read (.afterEquals (start ++ name)) rest := by
  induction name generalizing start with
  | nil => simp [read]
  | cons c name inductionHypothesis =>
      obtain ⟨⟨visible, _, _⟩, ordinary⟩ := List.forall_mem_cons.mp ordinary
      rw [List.mem_cons, not_or] at closed
      rw [List.cons_append, read, if_neg (Ne.symm closed.1),
        if_neg (by simp [visible]), inductionHypothesis _ ordinary closed.2,
        List.append_assoc, List.singleton_append]

theorem read_between
    (ordinary : ∀ c ∈ name, Ordinary c)
    (closed : '=' ∉ name) :
    read .between (name ++ '=' :: rest) = read (.afterEquals name) rest := by
  cases name with
  | nil => rfl
  | cons c name =>
      obtain ⟨⟨visible, _, _⟩, ordinary⟩ := List.forall_mem_cons.mp ordinary
      rw [List.mem_cons, not_or] at closed
      rw [List.cons_append, read, if_neg (by simp [visible]),
        if_neg (Ne.symm closed.1), read_keyword _ ordinary closed.2,
        List.singleton_append]

theorem read_unquoted
    (start : List Char)
    (ordinary : ∀ c ∈ value, Ordinary c) :
    read (.unquoted name start) (value ++ rest) =
      read (.unquoted name (start ++ value)) rest := by
  induction value generalizing start with
  | nil => rw [List.nil_append, List.append_nil]
  | cons c value inductionHypothesis =>
      obtain ⟨⟨visible, unescaped, _⟩, ordinary⟩ :=
        List.forall_mem_cons.mp ordinary
      rw [List.cons_append, read, if_neg (by simp [visible]),
        if_neg unescaped, inductionHypothesis _ ordinary, List.append_assoc,
        List.singleton_append]

theorem read_afterEquals
    (filled : value ≠ [])
    (ordinary : ∀ c ∈ value, Ordinary c)
    (start : value.head? ≠ some '\'') :
    read (.afterEquals name) (value ++ rest) =
      read (.unquoted name value) rest := by
  cases value with
  | nil => exact absurd rfl filled
  | cons c value =>
      obtain ⟨⟨visible, unescaped, _⟩, ordinary⟩ :=
        List.forall_mem_cons.mp ordinary
      have unquoted : c ≠ '\'' := fun quote => start (congrArg some quote)
      rw [List.cons_append, read, if_neg (by simp [visible]), if_neg unquoted,
        if_neg unescaped, read_unquoted _ ordinary, List.singleton_append]

end Reading

/-! ## Settings that need no quoting -/

@[simp]
theorem toList_write (setting : Setting) :
    (write setting).toList =
      ' ' :: (setting.1.toList ++ '=' :: setting.2.toList) := by
  simp [write]

@[simp]
theorem render_nil : render [] = "" := rfl

@[simp]
theorem render_cons
    (setting : Setting)
    (settings : List Setting) :
    render (setting :: settings) = write setting ++ render settings := by
  simp [render]

/-- Settings that can be written down without quotes. -/
structure Writable (settings : List Setting) : Prop where
  keywords : ∀ setting ∈ settings, Keyword setting.1
  values : ∀ setting ∈ settings, Plain setting.2

/-- Only the last value may be empty. -/
def Filled (settings : List Setting) : Prop :=
  ∀ setting ∈ settings.dropLast, setting.2 ≠ ""

section Settings

variable {settings : List Setting}
variable {setting next : Setting}

theorem Writable.tail
    (writable : Writable (setting :: settings)) :
    Writable settings where
  keywords := (List.forall_mem_cons.mp writable.keywords).2
  values := (List.forall_mem_cons.mp writable.values).2

theorem filled_cons_iff :
    Filled (setting :: settings) ↔
      (settings ≠ [] → setting.2 ≠ "") ∧ Filled settings := by
  cases settings with
  | nil => simp [Filled]
  | cons next settings =>
      rw [Filled, List.dropLast_cons_of_ne_nil (by simp),
        List.forall_mem_cons]
      simp [Filled]

/-- The reader before the rest of a list of settings. -/
theorem read_render_cons
    (keyword : Keyword setting.1) :
    read .between (render (setting :: settings)).toList =
      read (.afterEquals setting.1.toList)
        (setting.2.toList ++ (render settings).toList) := by
  rw [render_cons, String.toList_append, toList_write, List.cons_append, read,
    if_pos (by decide), List.append_assoc, List.cons_append,
    read_between keyword.plain.characters keyword.closed]

/-- Settings start with a blank. -/
theorem render_eq_nil_or (settings : List Setting) :
    (render settings).toList = [] ∨
      ∃ others, (render settings).toList = ' ' :: others := by
  cases settings with
  | nil => exact .inl rfl
  | cons setting settings => exact .inr ⟨_, by simp; rfl⟩

/-- A value ends where a blank or nothing follows. -/
theorem read_value
    {name following : List Char}
    {value : String}
    (filled : value ≠ "")
    (plain : Plain value)
    (ends : following = [] ∨ ∃ others, following = ' ' :: others) :
    read (.afterEquals name) (value.toList ++ following) =
      (read .between following).map ((String.ofList name, value) :: ·) := by
  have nonempty : value.toList ≠ [] := by simpa using filled
  have whole : Conninfo.setting name value.toList =
      (String.ofList name, value) := by
    simp [Conninfo.setting]
  rw [read_afterEquals nonempty plain.characters plain.start]
  rcases ends with rfl | ⟨others, rfl⟩
  · simp [read, whole]
  · rw [read, if_pos (by decide), read, if_pos (by decide), whole]

/-- Settings that need no quotes are read as they are, as long as only the
last one is empty. -/
theorem read_render
    (writable : Writable settings)
    (filled : Filled settings) :
    read .between (render settings).toList = some settings := by
  induction settings with
  | nil => rfl
  | cons setting settings inductionHypothesis =>
      have keyword := writable.keywords setting List.mem_cons_self
      have plain := writable.values setting List.mem_cons_self
      obtain ⟨followed, later⟩ := filled_cons_iff.mp filled
      rw [read_render_cons keyword]
      by_cases empty : setting.2 = ""
      · obtain rfl : settings = [] := by
          by_contra more
          exact followed more empty
        have whole : setting = (setting.1, "") := Prod.ext rfl empty
        rw [whole]
        simp [read, Conninfo.setting]
      · rw [read_value empty plain (render_eq_nil_or _),
          inductionHypothesis writable.tail later]
        simp

/-- What is written without quotes holds no null character. -/
theorem takeWhile_render
    (writable : Writable settings) :
    (render settings).toList.takeWhile (· ≠ '\x00') =
      (render settings).toList := by
  rw [List.takeWhile_eq_self_iff]
  induction settings with
  | nil => exact fun _ member => nomatch member
  | cons setting settings inductionHypothesis =>
      have keyword := writable.keywords setting List.mem_cons_self
      have plain := writable.values setting List.mem_cons_self
      intro c member
      rw [render_cons, String.toList_append, toList_write] at member
      simp only [List.cons_append, List.append_assoc, List.mem_cons,
        List.mem_append] at member
      rw [decide_eq_true_eq]
      rcases member with rfl | inName | rfl | inValue | later
      · decide
      · exact (keyword.plain.characters c inName).2.2
      · decide
      · exact (plain.characters c inValue).2.2
      · exact of_decide_eq_true (inductionHypothesis writable.tail c later)

theorem parse_render
    (writable : Writable settings)
    (filled : Filled settings) :
    parse (render settings) = some settings := by
  rw [parse, takeWhile_render writable, read_render writable filled]

/-- A blank in front changes nothing. -/
theorem parse_blank (text : String) :
    parse (" " ++ text) = parse text := by
  have first : (" " ++ text).toList = ' ' :: text.toList := by
    simp
  rw [parse, parse, first, List.takeWhile_cons_of_pos (by decide), read,
    if_pos (by decide)]

/-! ## Empty values -/

theorem filled_append_iff
    {others : List Setting}
    (followed : others ≠ []) :
    Filled (settings ++ others) ↔
      (∀ setting ∈ settings, setting.2 ≠ "") ∧ Filled others := by
  rw [Filled, List.dropLast_append_of_ne_nil followed,
    List.forall_mem_append]
  rfl

end Settings

end Conninfo
