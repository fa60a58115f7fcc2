import Walkrie.Library.Conninfo

/-!
# Which values need quotes

Settings that are written down without quotes are read as they are only if no
value needs quotes.  The reader drops nothing of a text but blanks, quotes and
backslashes.  So a value that is read from the place where it stands has none
of these: reading it would otherwise have gone on into the keyword that
follows.  And a value that is read from elsewhere needs its keyword a second
time, spelled with characters the text does not have to spare.
-/

namespace Conninfo

/-! ## The text a value is read from -/

/-- A value and the characters it is read from, up to one that stops it.  A
backslash takes the next character as it stands, and nothing at the end. -/
inductive Unescapes (stops : Char → Bool) : List Char → List Char → Prop
  | nil : Unescapes stops [] []
  | plain {c : Char} {raw value : List Char} :
      stops c = false → c ≠ '\\' → Unescapes stops raw value →
      Unescapes stops (c :: raw) (c :: value)
  | escape {c : Char} {raw value : List Char} :
      Unescapes stops raw value →
      Unescapes stops ('\\' :: c :: raw) (c :: value)
  | last : Unescapes stops ['\\'] []

namespace Unescapes

variable {stops : Char → Bool}
variable {raw value : List Char}

theorem filter_eq
    (unescapes : Unescapes stops raw value)
    {keeps : Char → Bool}
    (dropped : keeps '\\' = false) :
    value.filter keeps = raw.filter keeps := by
  induction unescapes with
  | nil => rfl
  | plain _ _ _ inductionHypothesis =>
      simp only [List.filter_cons, inductionHypothesis]
  | escape _ inductionHypothesis =>
      simp only [List.filter_cons, dropped, Bool.false_eq_true, if_false,
        inductionHypothesis]
  | last => simp [dropped]

/-- Every character that is dropped is a backslash. -/
theorem count_add_length
    (unescapes : Unescapes stops raw value) :
    raw.count '\\' + value.length = value.count '\\' + raw.length := by
  induction unescapes with
  | nil => rfl
  | plain _ _ _ inductionHypothesis =>
      simp only [List.count_cons, List.length_cons]
      omega
  | escape _ inductionHypothesis =>
      simp only [List.count_cons, List.length_cons, beq_self_eq_true, if_true]
      omega
  | last => rfl

theorem length_le
    (unescapes : Unescapes stops raw value) :
    value.length ≤ raw.length := by
  induction unescapes with
  | nil => exact Nat.le_refl _
  | plain _ _ _ inductionHypothesis =>
      exact Nat.succ_le_succ inductionHypothesis
  | escape _ inductionHypothesis =>
      exact (Nat.succ_le_succ inductionHypothesis).trans (Nat.le_succ _)
  | last => exact Nat.zero_le _

/-- Nothing is dropped of a value as long as the text it is read from. -/
theorem eq_of_length
    (unescapes : Unescapes stops raw value)
    (same : raw.length = value.length) :
    raw = value ∧ ∀ c ∈ value, stops c = false ∧ c ≠ '\\' := by
  induction unescapes with
  | nil => exact ⟨rfl, by simp⟩
  | plain goes unescaped _ inductionHypothesis =>
      obtain ⟨rfl, ordinary⟩ := inductionHypothesis (Nat.succ.inj same)
      exact ⟨rfl, List.forall_mem_cons.mpr ⟨⟨goes, unescaped⟩, ordinary⟩⟩
  | escape rest =>
      have shorter := rest.length_le
      simp only [List.length_cons] at same
      omega
  | last => cases same

end Unescapes

/-- The value after an equals sign, in a text, and what is left of the text. -/
inductive Takes : List Char → List Char → List Char → Prop
  | unquoted {spaces used value rest : List Char} :
      (∀ c ∈ spaces, blank c = true) → used.head? ≠ some '\'' →
      Unescapes blank used value →
      Takes (spaces ++ (used ++ rest)) value rest
  | quoted {spaces used value rest : List Char} :
      (∀ c ∈ spaces, blank c = true) →
      Unescapes (· == '\'') used value →
      Takes (spaces ++ '\'' :: (used ++ '\'' :: rest)) value rest

section Reading

variable {name : List Char}

theorem exists_of_read_unquoted :
    ∀ {text start : List Char} {parsed : List Setting},
      read (.unquoted name start) text = some parsed →
      ∃ used value rest settings, text = used ++ rest ∧
        Unescapes blank used value ∧
        parsed = setting name (start ++ value) :: settings ∧
        read .between rest = some settings
  | [], start, _, executed => by
      cases executed
      exact ⟨[], [], [], [], rfl, .nil, by rw [List.append_nil], rfl⟩
  | c :: text, start, parsed, executed => by
      rw [read] at executed
      split at executed <;> rename_i stops
      · obtain ⟨settings, later, rfl⟩ := Option.map_eq_some_iff.mp executed
        refine ⟨[], [], c :: text, settings, rfl, .nil,
          by rw [List.append_nil], ?_⟩
        rw [read, if_pos stops, later]
      split at executed <;> rename_i escaped
      · subst escaped
        cases text with
        | nil =>
            cases executed
            exact ⟨_, [], [], [], rfl, .last, by rw [List.append_nil], rfl⟩
        | cons next text =>
            rw [read] at executed
            obtain ⟨used, value, rest, settings, rfl, unescapes, rfl, later⟩ :=
              exists_of_read_unquoted executed
            exact ⟨_, next :: value, rest, settings, rfl, .escape unescapes,
              by simp, later⟩
      · obtain ⟨used, value, rest, settings, rfl, unescapes, rfl, later⟩ :=
          exists_of_read_unquoted executed
        exact ⟨c :: used, c :: value, rest, settings, rfl,
          .plain (by simpa using stops) escaped unescapes, by simp, later⟩

theorem exists_of_read_quoted :
    ∀ {text start : List Char} {parsed : List Setting},
      read (.quoted name start) text = some parsed →
      ∃ used value rest settings, text = used ++ '\'' :: rest ∧
        Unescapes (· == '\'') used value ∧
        parsed = setting name (start ++ value) :: settings ∧
        read .between rest = some settings
  | [], start, _, executed => by cases executed
  | c :: text, start, parsed, executed => by
      rw [read] at executed
      split at executed <;> rename_i escaped
      · subst escaped
        cases text with
        | nil => cases executed
        | cons next text =>
            rw [read] at executed
            obtain ⟨used, value, rest, settings, rfl, unescapes, rfl, later⟩ :=
              exists_of_read_quoted executed
            exact ⟨_, next :: value, rest, settings, rfl, .escape unescapes,
              by simp, later⟩
      split at executed <;> rename_i closes
      · obtain ⟨settings, later, rfl⟩ := Option.map_eq_some_iff.mp executed
        subst closes
        exact ⟨[], [], text, settings, rfl, .nil, by rw [List.append_nil],
          later⟩
      · obtain ⟨used, value, rest, settings, rfl, unescapes, rfl, later⟩ :=
          exists_of_read_quoted executed
        exact ⟨c :: used, c :: value, rest, settings, rfl,
          .plain (by simpa using closes) escaped unescapes, by simp, later⟩

theorem Takes.skip
    {c : Char}
    {text value rest : List Char}
    (space : blank c = true)
    (takes : Takes text value rest) :
    Takes (c :: text) value rest := by
  cases takes with
  | unquoted spaces start unescapes =>
      exact .unquoted (List.forall_mem_cons.mpr ⟨space, spaces⟩) start
        unescapes
  | quoted spaces unescapes =>
      exact .quoted (List.forall_mem_cons.mpr ⟨space, spaces⟩) unescapes

theorem takes_of_read
    {text : List Char}
    {parsed : List Setting}
    (executed : read (.afterEquals name) text = some parsed) :
    ∃ value rest settings, Takes text value rest ∧
      parsed = setting name value :: settings ∧
      read .between rest = some settings := by
  have nothing : ∀ c ∈ ([] : List Char), blank c = true := by simp
  induction text with
  | nil =>
      cases executed
      exact ⟨[], [], [], .unquoted nothing (by simp) .nil, rfl, rfl⟩
  | cons c text inductionHypothesis =>
      rw [read] at executed
      split at executed <;> rename_i space
      · obtain ⟨value, rest, settings, takes, same, later⟩ :=
          inductionHypothesis executed
        exact ⟨value, rest, settings, takes.skip space, same, later⟩
      split at executed <;> rename_i quote
      · subst quote
        obtain ⟨used, value, rest, settings, rfl, unescapes, same, later⟩ :=
          exists_of_read_quoted executed
        exact ⟨value, rest, settings, .quoted nothing unescapes, same, later⟩
      · -- From here on the value is read like one that has started.
        have started : read (.unquoted name []) (c :: text) = some parsed := by
          rw [read, if_neg space]
          exact executed
        obtain ⟨used, value, rest, settings, split, unescapes, same, later⟩ :=
          exists_of_read_unquoted started
        refine ⟨value, rest, settings, ?_, same, later⟩
        rw [split]
        refine .unquoted nothing ?_ unescapes
        cases used with
        | nil => simp
        | cons first used =>
            cases (List.cons.inj split).1
            simpa using quote

end Reading

/-! ## Values read from their place -/

/-- A character the reader never drops. -/
def Solid (c : Char) : Prop :=
  blank c = false ∧ c ≠ '\\' ∧ c ≠ '\''

instance (c : Char) : Decidable (Solid c) :=
  inferInstanceAs (Decidable (_ ∧ _))

theorem filter_solid_of_blank
    {spaces : List Char}
    (all : ∀ c ∈ spaces, blank c = true) :
    spaces.filter (fun c => decide (Solid c)) = [] := by
  refine List.filter_eq_nil_iff.mpr fun c member => ?_
  simp [Solid, all c member]

theorem Takes.length_le
    {text value rest : List Char}
    (takes : Takes text value rest) :
    value.length ≤ text.length := by
  cases takes with
  | unquoted _ _ unescapes =>
      have shorter := unescapes.length_le
      simp only [List.length_append]
      omega
  | quoted _ unescapes =>
      have shorter := unescapes.length_le
      simp only [List.length_append, List.length_cons]
      omega

/-- What follows a value: nothing, or a blank and a keyword. -/
def Follows (following : List Char) : Prop :=
  following = [] ∨ ∃ c others, following = ' ' :: c :: others ∧ Solid c

/-- Of what follows a value, the reader drops at most the blank. -/
theorem eq_nil_or_of_filter
    {taken rest : List Char}
    (follows : Follows (taken ++ rest))
    (dropped : taken.filter (fun c => decide (Solid c)) = []) :
    taken = [] ∨ taken = [' '] := by
  rcases follows with nothing | ⟨c, others, starts, solid⟩
  · exact .inl (List.append_eq_nil_iff.mp nothing).1
  · obtain _ | ⟨first, _ | ⟨second, taken⟩⟩ := taken
    · exact .inl rfl
    · exact .inr (by rw [(List.cons.inj starts).1])
    · obtain ⟨_, same⟩ := List.cons.inj starts
      cases (List.cons.inj same).1
      have gone := List.filter_eq_nil_iff.mp dropped c (by simp)
      exact absurd (decide_eq_true solid) gone

/-- The text a value is read from reaches at least as far as the value. -/
theorem exists_taken
    {value following used rest : List Char}
    (whole : value ++ following = used ++ rest)
    (length : value.length ≤ used.length) :
    ∃ taken, used = value ++ taken ∧ following = taken ++ rest := by
  rcases List.append_eq_append_iff.mp whole with further | ⟨left, same, next⟩
  · exact further
  · have nothing : left = [] := by
      rw [same, List.length_append] at length
      exact List.eq_nil_of_length_eq_zero (by omega)
    subst nothing
    exact ⟨[], by simpa using same.symm, by simpa using next.symm⟩

/-- A value that is read from its place needs no quotes: reading it would
otherwise take more of the text than the value has characters, and thus some
of the keyword that follows. -/
theorem ordinary_of_takes
    {value following rest : List Char}
    (filled : value ≠ [])
    (follows : Follows following)
    (takes : Takes (value ++ following) value rest) :
    (∀ c ∈ value, blank c = false ∧ c ≠ '\\') ∧
      value.head? ≠ some '\'' := by
  generalize text : value ++ following = whole at takes
  cases takes with
  | @unquoted spaces used _ _ blanks start unescapes =>
      have shorter := unescapes.length_le
      rw [← List.append_assoc] at text
      obtain ⟨taken, reached, rfl⟩ := exists_taken text
        (by rw [List.length_append]; omega)
      have dropped : taken.filter (fun c => decide (Solid c)) = [] := by
        have solid := congrArg (List.filter fun c => decide (Solid c)) reached
        rw [List.filter_append, filter_solid_of_blank blanks,
          List.filter_append, List.nil_append,
          ← unescapes.filter_eq (by decide)] at solid
        simpa using solid
      have unescaped : used.length = value.length := by
        have slashes := congrArg (List.count '\\') reached
        have spaced : spaces.count '\\' = 0 :=
          List.count_eq_zero.mpr fun member =>
            absurd (blanks _ member) (by decide)
        have counted := unescapes.count_add_length
        rw [List.count_append, List.count_append, spaced] at slashes
        rcases eq_nil_or_of_filter follows dropped with rfl | rfl
        · rw [List.count_nil] at slashes
          omega
        · rw [show [' '].count '\\' = 0 from rfl] at slashes
          omega
      obtain ⟨rfl, ordinary⟩ := unescapes.eq_of_length unescaped
      exact ⟨ordinary, start⟩
  | @quoted spaces used _ _ blanks unescapes =>
      -- The two quotes alone take more than the blank that follows.
      have shorter := unescapes.length_le
      have split : spaces ++ '\'' :: (used ++ '\'' :: rest) =
          (spaces ++ '\'' :: (used ++ ['\''])) ++ rest := by
        simp
      rw [split] at text
      obtain ⟨taken, reached, rfl⟩ := exists_taken text
        (by simp only [List.length_append, List.length_cons]; omega)
      have dropped : taken.filter (fun c => decide (Solid c)) = [] := by
        have solid := congrArg (List.filter fun c => decide (Solid c)) reached
        have quote : decide (Solid '\'') = false := by decide
        rw [List.filter_append, filter_solid_of_blank blanks,
          List.filter_append, List.nil_append, List.filter_cons, quote,
          List.filter_append, List.filter_singleton, quote,
          ← unescapes.filter_eq (by decide)] at solid
        simpa using solid
      have lengths := congrArg List.length reached
      simp only [List.length_append, List.length_cons, List.length_nil]
        at lengths
      rcases eq_nil_or_of_filter follows dropped with rfl | rfl
      · rw [List.length_nil] at lengths
        omega
      · rw [List.length_singleton] at lengths
        omega

/-! ## Keywords that are needed twice -/

/-- How often a character stands in keywords and values. -/
def occurrences (c : Char) (settings : List Setting) : Nat :=
  (settings.map fun setting =>
    setting.1.toList.count c + setting.2.toList.count c).sum

@[simp]
theorem occurrences_nil (c : Char) : occurrences c [] = 0 := rfl

@[simp]
theorem occurrences_cons
    (c : Char)
    (setting : Setting)
    (settings : List Setting) :
    occurrences c (setting :: settings) =
      setting.1.toList.count c + setting.2.toList.count c +
        occurrences c settings :=
  List.sum_cons

/-- How often it stands in what has been read of a setting. -/
def State.count (c : Char) : State → Nat
  | .between => 0
  | .keyword name | .beforeEquals name | .afterEquals name => name.count c
  | .unquoted name value | .unquotedEscape name value
  | .quoted name value | .quotedEscape name value =>
      name.count c + value.count c

/-- What the reader never drops is found in the settings. -/
theorem occurrences_of_read
    {c : Char}
    (solid : Solid c)
    (letter : c ≠ '=')
    {state : State}
    {text : List Char}
    {parsed : List Setting}
    (executed : read state text = some parsed) :
    occurrences c parsed = state.count c + text.count c := by
  have spaces : ∀ other, blank other = true → other ≠ c := by
    rintro other space rfl
    exact absurd (space.symm.trans solid.1) (by decide)
  have slash : '\\' ≠ c := Ne.symm solid.2.1
  have quote : '\'' ≠ c := Ne.symm solid.2.2
  have equals : '=' ≠ c := Ne.symm letter
  fun_induction read state text generalizing parsed
  -- The end of a value adds a setting to those of the rest.
  case case22 name value other rest space inductionHypothesis =>
    obtain ⟨settings, later, rfl⟩ := Option.map_eq_some_iff.mp executed
    rw [occurrences_cons, inductionHypothesis later,
      List.count_cons_of_ne (spaces other space)]
    simp [State.count, setting]
  case case27 name value rest _ inductionHypothesis =>
    obtain ⟨settings, later, rfl⟩ := Option.map_eq_some_iff.mp executed
    rw [occurrences_cons, inductionHypothesis later,
      List.count_cons_of_ne quote]
    simp [State.count, setting]
  case case4 | case5 | case6 =>
    cases executed
    simp [State.count, setting]
  -- Every other step keeps its character or drops one that is not solid.
  all_goals
    simp_all [State.count, List.count_cons]
  all_goals omega

theorem occurrences_of_subset
    {c : Char}
    {settings others : List Setting}
    (distinct : settings.Nodup)
    (within : settings ⊆ others) :
    occurrences c settings ≤ occurrences c others := by
  obtain ⟨part, same, sublist⟩ := distinct.subperm within
  calc occurrences c settings
      = occurrences c part := ((same.map _).sum_eq).symm
    _ ≤ occurrences c others :=
        (sublist.map _).sum_le_sum fun _ _ => Nat.zero_le _

theorem occurrences_filter
    {c : Char}
    {settings : List Setting}
    (absent : ∀ setting ∈ settings, setting.2 = "" →
      setting.1.toList.count c = 0) :
    occurrences c settings =
      occurrences c (settings.filter fun setting => setting.2 ≠ "") := by
  induction settings with
  | nil => rfl
  | cons setting settings inductionHypothesis =>
      rw [List.forall_mem_cons] at absent
      have later := inductionHypothesis absent.2
      by_cases empty : setting.2 = ""
      · rw [List.filter_cons_of_neg (by simpa using empty), ← later,
          occurrences_cons, absent.1 empty, empty]
        exact Nat.zero_add _
      · rw [List.filter_cons_of_pos (by simpa using empty), occurrences_cons,
          occurrences_cons, later]

theorem count_render
    {c : Char}
    (solid : Solid c)
    (letter : c ≠ '=')
    (settings : List Setting) :
    (render settings).toList.count c = occurrences c settings := by
  have space : ' ' ≠ c := by
    rintro rfl
    exact absurd solid (by decide)
  induction settings with
  | nil => rfl
  | cons setting settings inductionHypothesis =>
      simp [space, Ne.symm letter, inductionHypothesis, Nat.add_assoc]

/-- Every keyword has a character that is in none of the keywords after it
that may be without a value. -/
def Marked (optional : List String) : List String → Prop
  | [] => True
  | name :: names =>
      (∃ c ∈ name.toList, (Solid c ∧ c ≠ '=') ∧
        ∀ other ∈ names, other ∈ optional → c ∉ other.toList) ∧
      Marked optional names

theorem Marked.sublist
    {optional names others : List String}
    (sublist : names.Sublist others)
    (marked : Marked optional others) :
    Marked optional names := by
  induction sublist with
  | slnil => trivial
  | cons _ _ inductionHypothesis => exact inductionHypothesis marked.2
  | cons_cons _ kept inductionHypothesis =>
      obtain ⟨⟨c, member, solid, alone⟩, later⟩ := marked
      exact ⟨⟨c, member, solid, fun other among =>
        alone other (kept.subset among)⟩, inductionHypothesis later⟩

/-- What is read of a text stops at a null character. -/
def cut (text : List Char) : List Char :=
  text.takeWhile (· ≠ '\x00')

section Exact

variable {settings parsed : List Setting}
variable {setting : Setting}

/-- A setting that is read otherwise than it was written is set again later,
for which there are not enough characters. -/
theorem false_of_repeated
    {optional : List String}
    (marked : Marked optional ((setting :: settings).map Prod.fst))
    (distinct : ((setting :: settings).map Prod.fst).Nodup)
    (empties : ∀ other ∈ settings, other.2 = "" → other.1 ∈ optional)
    {text : List Char}
    (sublist : text.Sublist (render (setting :: settings)).toList)
    {value : String}
    (executed : read .between text = some ((setting.1, value) :: parsed))
    (again : setting ∈ parsed)
    (others : ∀ other ∈ settings, other.2 ≠ "" → other ∈ parsed) :
    False := by
  obtain ⟨⟨c, member, ⟨solid, letter⟩, alone⟩, _⟩ := marked
  have needed : occurrences c
      (setting :: settings.filter fun other => other.2 ≠ "") ≤
        occurrences c parsed := by
    refine occurrences_of_subset ?_ ?_
    · refine List.Nodup.of_map Prod.fst (distinct.sublist ?_)
      exact (List.filter_sublist.cons_cons setting).map Prod.fst
    · refine List.cons_subset.mpr ⟨again, fun other among => ?_⟩
      obtain ⟨present, filled⟩ := List.mem_filter.mp among
      exact others other present (of_decide_eq_true filled)
  have available : occurrences c ((setting.1, value) :: parsed) ≤
      occurrences c (setting :: settings) := by
    rw [occurrences_of_read solid letter executed,
      ← count_render solid letter, State.count, Nat.zero_add]
    exact sublist.count_le c
  have spare : occurrences c settings =
      occurrences c (settings.filter fun other => other.2 ≠ "") := by
    refine occurrences_filter fun other present empty => ?_
    have absent := alone other.1 (List.mem_map_of_mem present)
      (empties other present empty)
    exact List.count_eq_zero.mpr absent
  have positive := List.count_pos_iff.mpr member
  simp only [occurrences_cons] at needed available
  omega

theorem cut_append
    {text : List Char}
    (others : List Char)
    (whole : '\x00' ∉ text) :
    cut (text ++ others) = text ++ cut others :=
  List.takeWhile_append_of_pos fun c member => by
    rw [decide_eq_true_eq]
    rintro rfl
    exact whole member

theorem Keyword.notMem_null
    {name : String}
    (keyword : Keyword name) :
    '\x00' ∉ name.toList :=
  fun member => (keyword.plain.characters _ member).2.2 rfl

theorem cut_render_cons
    (keyword : Keyword setting.1) :
    cut (render (setting :: settings)).toList =
      ' ' :: (setting.1.toList ++
        '=' :: cut (setting.2.toList ++ (render settings).toList)) := by
  have head : '\x00' ∉ ' ' :: (setting.1.toList ++ ['=']) := by
    simpa using keyword.notMem_null
  have split : (render (setting :: settings)).toList =
      (' ' :: (setting.1.toList ++ ['='])) ++
        (setting.2.toList ++ (render settings).toList) := by
    simp
  rw [split, cut_append _ head]
  simp

theorem read_cut_cons
    (keyword : Keyword setting.1) :
    read .between (cut (render (setting :: settings)).toList) =
      read (.afterEquals setting.1.toList)
        (cut (setting.2.toList ++ (render settings).toList)) := by
  rw [cut_render_cons keyword, read, if_pos (by decide),
    read_between keyword.plain.characters keyword.closed]

theorem follows_cut_render
    (keywords : ∀ setting ∈ settings, Keyword setting.1) :
    Follows (cut (render settings).toList) := by
  cases settings with
  | nil => exact .inl rfl
  | cons setting settings =>
      have keyword := keywords setting List.mem_cons_self
      rw [cut_render_cons keyword]
      cases named : setting.1.toList with
      | nil => exact .inr ⟨'=', _, rfl, by decide⟩
      | cons c others =>
          obtain ⟨visible, unescaped, _⟩ :=
            keyword.plain.characters c (by simp [named])
          have start := keyword.plain.start
          rw [named] at start
          exact .inr ⟨c, _, rfl, visible, unescaped, by simpa using start⟩

/-- A value that is read as it is written, with what follows it. -/
theorem plain_of_read
    (keywords : ∀ setting ∈ settings, Keyword setting.1)
    {value : String}
    (filled : value ≠ "")
    {rest : List Char}
    (takes : Takes (cut (value.toList ++ (render settings).toList))
      value.toList rest) :
    Plain value ∧
      cut (value.toList ++ (render settings).toList) =
        value.toList ++ cut (render settings).toList := by
  have whole : '\x00' ∉ value.toList := by
    intro member
    obtain ⟨taken, reached, _⟩ := exists_taken
      (List.takeWhile_append_dropWhile (p := (· ≠ '\x00'))).symm
      takes.length_le
    have present : '\x00' ∈
        cut (value.toList ++ (render settings).toList) := by
      rw [cut, reached]
      exact List.mem_append_left _ member
    exact absurd (List.mem_takeWhile_imp present) (by decide)
  rw [cut_append _ whole] at takes ⊢
  obtain ⟨ordinary, start⟩ := ordinary_of_takes (by simpa using filled)
    (follows_cut_render keywords) takes
  refine ⟨⟨fun c member => ⟨(ordinary c member).1, (ordinary c member).2, ?_⟩,
    start⟩, rfl⟩
  rintro rfl
  exact whole member

/-- An empty value is read as something else when a setting follows. -/
theorem ne_nil_of_takes
    {name : List Char}
    (keywords : ∀ setting ∈ settings, Keyword setting.1)
    (followed : settings ≠ [])
    {value : List Char}
    (executed : read (.afterEquals name) (cut (render settings).toList) =
      some (Conninfo.setting name value :: parsed)) :
    value ≠ [] := by
  rcases follows_cut_render keywords with nothing | ⟨c, others, text, solid⟩
  · obtain ⟨setting, rest, rfl⟩ := List.exists_cons_of_ne_nil followed
    rw [cut_render_cons (keywords setting List.mem_cons_self)] at nothing
    cases nothing
  · rw [text, read, if_pos (by decide), read, if_neg (by simp [solid.1]),
      if_neg solid.2.2, if_neg solid.2.1] at executed
    obtain ⟨_, more, _, _, _, _, same, _⟩ := exists_of_read_unquoted executed
    have values := congrArg Prod.snd (List.cons.inj same).1
    rintro rfl
    have lists := String.ofList_inj.mp values
    cases lists

/-- A keyword with a value has it from one of the settings. -/
theorem mem_of_value?
    {name value : String}
    (found : (value? parsed name).getD "" = value)
    (filled : value ≠ "") :
    (name, value) ∈ parsed := by
  cases assigned : value? parsed name with
  | none =>
      rw [assigned, Option.getD_none] at found
      exact absurd found.symm filled
  | some text =>
      rw [assigned, Option.getD_some] at found
      rw [← found]
      exact Assoc.mem_of_last assigned

/-- A keyword whose value is not that of its first setting has a later one. -/
theorem mem_of_value?_cons
    {name first value : String}
    (found : (value? ((name, first) :: parsed) name).getD "" = value)
    (changed : first ≠ value) :
    (name, value) ∈ parsed := by
  rw [value?, Assoc.last_cons, if_pos rfl] at found
  cases again : Assoc.last parsed name with
  | none =>
      rw [again, Option.none_or, Option.getD_some] at found
      exact absurd found changed
  | some text =>
      rw [again, Option.some_or, Option.getD_some] at found
      rw [← found]
      exact Assoc.mem_of_last again

/-- Where all keywords have the values that were written, the first value is
read as it was written. -/
theorem value_eq_of_read
    {optional : List String}
    (marked : Marked optional ((setting :: settings).map Prod.fst))
    (distinct : ((setting :: settings).map Prod.fst).Nodup)
    (empties : ∀ other ∈ settings, other.2 = "" → other.1 ∈ optional)
    {value : String}
    (executed : read .between (cut (render (setting :: settings)).toList) =
      some ((setting.1, value) :: parsed))
    (own : (value? ((setting.1, value) :: parsed) setting.1).getD "" =
      setting.2)
    (later : ∀ other ∈ settings,
      (value? parsed other.1).getD "" = other.2) :
    value = setting.2 := by
  by_contra changed
  refine false_of_repeated marked distinct empties
    (List.takeWhile_sublist _) executed (mem_of_value?_cons own changed) ?_
  intro other member filled
  exact mem_of_value? (later other member) filled

/-- Settings that are read as they were written need no quotes, and only the
last one may be empty. -/
theorem writable_of_read
    {optional : List String}
    (keywords : ∀ setting ∈ settings, Keyword setting.1)
    (marked : Marked optional (settings.map Prod.fst))
    (distinct : (settings.map Prod.fst).Nodup)
    (empties : ∀ setting ∈ settings, setting.2 = "" →
      setting.1 ∈ optional)
    (executed : read .between (cut (render settings).toList) = some parsed)
    (values : ∀ setting ∈ settings,
      (value? parsed setting.1).getD "" = setting.2) :
    (∀ setting ∈ settings, Plain setting.2) ∧ Filled settings := by
  induction settings generalizing parsed with
  | nil => exact ⟨by simp, by simp [Filled]⟩
  | cons setting settings inductionHypothesis =>
      obtain ⟨keyword, laterKeywords⟩ := List.forall_mem_cons.mp keywords
      obtain ⟨_, laterEmpties⟩ := List.forall_mem_cons.mp empties
      obtain ⟨own, laterValues⟩ := List.forall_mem_cons.mp values
      have text := executed
      rw [read_cut_cons keyword] at executed
      obtain ⟨chars, rest, others, takes, rfl, _⟩ := takes_of_read executed
      have first : Conninfo.setting setting.1.toList chars =
          (setting.1, String.ofList chars) := by
        simp [Conninfo.setting]
      have elsewhere : ∀ other ∈ settings,
          (value? others other.1).getD "" = other.2 := by
        intro other member
        have apart : other.1 ≠ setting.1 := fun same =>
          (List.nodup_cons.mp distinct).1
            (same ▸ List.mem_map_of_mem member)
        have value := laterValues other member
        rwa [value?, Assoc.last_cons, first, if_neg apart, Option.or_none]
          at value
      rw [first] at text own
      have same := value_eq_of_read marked distinct laterEmpties text own
        elsewhere
      obtain rfl : chars = setting.2.toList := by rw [← same]; simp
      by_cases empty : setting.2 = ""
      · -- An empty value is read as such at the end only.
        obtain rfl : settings = [] := by
          by_contra followed
          rw [empty, String.toList_empty, List.nil_append] at executed
          exact ne_nil_of_takes laterKeywords followed executed rfl
        refine ⟨?_, by simp [Filled]⟩
        rw [List.forall_mem_singleton, empty]
        decide
      · obtain ⟨plain, whole⟩ := plain_of_read laterKeywords empty takes
        have ends : cut (render settings).toList = [] ∨
            ∃ others, cut (render settings).toList = ' ' :: others := by
          rcases follows_cut_render laterKeywords with
            nothing | ⟨_, _, text, _⟩
          · exact .inl nothing
          · exact .inr ⟨_, text⟩
        rw [whole, read_value empty plain ends] at executed
        obtain ⟨_, later, tail⟩ := Option.map_eq_some_iff.mp executed
        obtain rfl := (List.cons.inj tail).2
        obtain ⟨plains, filled⟩ := inductionHypothesis laterKeywords
          marked.2 (List.nodup_cons.mp distinct).2 laterEmpties later
          elsewhere
        exact ⟨List.forall_mem_cons.mpr ⟨plain, plains⟩,
          filled_cons_iff.mpr ⟨fun _ => empty, filled⟩⟩

end Exact

end Conninfo
