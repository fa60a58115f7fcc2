import Walkrie.Library.Assoc

/-!
# Statements with parameters on a table

A table is a multiset of rows, and a row gives a value to some of its columns.
The statements are an insert that turns into an update when it conflicts with
a row, and a delete by equality of columns.  Their parameters are numbered in
the order in which the statement mentions its columns.

What a statement does to the rows with a fixed value in one column is said by
four lemmas: nothing if it is about another value, and otherwise what it would
do if there were no other rows.
-/

namespace Sql

variable {Column Value : Type*}

/-- A column without a value is null. -/
abbrev Row (Column Value : Type*) := Column → Option Value

inductive Statement (Column : Type*)
  /-- `INSERT … (columns) VALUES ($1, …) ON CONFLICT (target) DO UPDATE`, which
  sets each of the updates to the value it would have been inserted with. -/
  | upsert (columns target updates : List Column)
  /-- `DELETE … WHERE column = $1 AND …`, with a condition for each column. -/
  | delete (columns : List Column)
  deriving DecidableEq

variable [DecidableEq Column]

/-- The row an insert proposes. -/
def excluded (defaults : Row Column Value) (columns : List Column)
    (params : List Value) : Row Column Value :=
  fun column => ((columns.zip params).lookup column).or (defaults column)

variable [DecidableEq Value]

/-- The row agrees with the proposed one in all columns of the target.  Nulls
are never equal. -/
def Conflicts (target : List Column) (proposed row : Row Column Value) :
    Prop :=
  ∀ column ∈ target, row column ≠ none ∧ row column = proposed column

instance (target : List Column) (proposed row : Row Column Value) :
    Decidable (Conflicts target proposed row) :=
  inferInstanceAs (Decidable (∀ column ∈ target, _))

/-- The row meets all conditions. -/
def Meets (conditions : List (Column × Value)) (row : Row Column Value) :
    Prop :=
  ∀ condition ∈ conditions, row condition.1 = some condition.2

instance (conditions : List (Column × Value)) (row : Row Column Value) :
    Decidable (Meets conditions row) :=
  inferInstanceAs (Decidable (∀ condition ∈ conditions, _))

/-- `DO UPDATE`, for a row that conflicts. -/
def overwrite (target updates : List Column)
    (proposed row : Row Column Value) : Row Column Value :=
  if Conflicts target proposed row then
    fun column => if column ∈ updates then proposed column else row column
  else row

/-- The table after a statement. -/
def execute (defaults : Row Column Value) (table : Multiset (Row Column Value))
    (statement : Statement Column) (params : List Value) :
    Multiset (Row Column Value) :=
  match statement with
  | .upsert columns target updates =>
      let proposed := excluded defaults columns params
      if ∀ row ∈ table, ¬Conflicts target proposed row then
        proposed ::ₘ table
      else table.map (overwrite target updates proposed)
  | .delete columns => table.filter fun row => ¬Meets (columns.zip params) row

/-! ## Rows with a fixed value in one column -/

section Scope

variable {defaults : Row Column Value}
variable {table : Multiset (Row Column Value)}
variable {columns target updates : List Column}
variable {params : List Value}
variable {column : Column}
variable {value other : Value}

/-- The rows with this value in the column. -/
def scope (column : Column) (value : Value)
    (table : Multiset (Row Column Value)) : Multiset (Row Column Value) :=
  table.filter fun row => row column = some value

/-- An update that leaves a column alone keeps its value. -/
theorem overwrite_apply
    (kept : column ∉ updates)
    (proposed row : Row Column Value) :
    overwrite target updates proposed row column = row column := by
  unfold overwrite
  split
  · exact if_neg kept
  · rfl

theorem scope_map_overwrite
    (kept : column ∉ updates)
    (proposed : Row Column Value) :
    scope column value (table.map (overwrite target updates proposed)) =
      (scope column value table).map (overwrite target updates proposed) := by
  unfold scope
  rw [Multiset.filter_map]
  congr 1
  refine Multiset.filter_congr fun row _ => ?_
  simp only [Function.comp_apply, overwrite_apply kept]

omit [DecidableEq Column] [DecidableEq Value] in
/-- Rows with another value do not conflict. -/
theorem not_conflicts_of_apply_ne
    {proposed row : Row Column Value}
    (targeted : column ∈ target)
    (different : row column ≠ proposed column) :
    ¬Conflicts target proposed row :=
  fun conflicts => different (conflicts column targeted).2

/-- An upsert of a row with this value sees only the rows with this value. -/
theorem scope_upsert_self
    (targeted : column ∈ target)
    (kept : column ∉ updates)
    (proposes : excluded defaults columns params column = some value) :
    scope column value
        (execute defaults table (.upsert columns target updates) params) =
      execute defaults (scope column value table)
        (.upsert columns target updates) params := by
  have same : (∀ row ∈ scope column value table,
        ¬Conflicts target (excluded defaults columns params) row) ↔
      ∀ row ∈ table,
        ¬Conflicts target (excluded defaults columns params) row := by
    constructor
    · intro free row member conflicts
      have carried := (conflicts column targeted).2.trans proposes
      exact free row (Multiset.mem_filter.mpr ⟨member, carried⟩) conflicts
    · intro free row member
      exact free row (Multiset.mem_of_mem_filter member)
  simp only [execute, same]
  split
  · exact Multiset.filter_cons_of_pos _ proposes
  · exact scope_map_overwrite kept _

/-- An upsert of a row with another value leaves the rows with this value. -/
theorem scope_upsert_other
    (targeted : column ∈ target)
    (kept : column ∉ updates)
    (proposes : excluded defaults columns params column = some other)
    (different : other ≠ value) :
    scope column value
        (execute defaults table (.upsert columns target updates) params) =
      scope column value table := by
  have apart : (some other : Option Value) ≠ some value :=
    fun same => different (Option.some.inj same)
  simp only [execute]
  split
  · refine Multiset.filter_cons_of_neg _ ?_
    rw [proposes]
    exact apart
  · rw [scope_map_overwrite kept]
    refine (Multiset.map_congr rfl fun row member => ?_).trans
      (Multiset.map_id _)
    have carried : row column = some value :=
      (Multiset.mem_filter.mp member).2
    refine if_neg (not_conflicts_of_apply_ne targeted ?_)
    rw [carried, proposes]
    exact apart.symm

/-- A delete treats each row on its own. -/
theorem scope_delete :
    scope column value (execute defaults table (.delete columns) params) =
      execute defaults (scope column value table) (.delete columns) params :=
  Multiset.filter_comm _ _ table

/-- A delete of rows with another value leaves the rows with this value. -/
theorem scope_delete_other
    (condition : (column, other) ∈ columns.zip params)
    (different : other ≠ value) :
    scope column value (execute defaults table (.delete columns) params) =
      scope column value table := by
  rw [scope_delete]
  refine Multiset.filter_eq_self.mpr fun row member meets => ?_
  have carried : row column = some value := (Multiset.mem_filter.mp member).2
  have required : row column = some other := meets (column, other) condition
  exact different (Option.some.inj (required.symm.trans carried))

end Scope

/-! ## Rows with fixed values in several columns -/

section Select

variable {defaults : Row Column Value}
variable {table : Multiset (Row Column Value)}
variable {columns target updates : List Column}
variable {params : List Value}
variable {conditions : List (Column × Value)}

/-- `SELECT … WHERE column = value AND …`. -/
def select (conditions : List (Column × Value))
    (table : Multiset (Row Column Value)) : Multiset (Row Column Value) :=
  table.filter (Meets conditions)

omit [DecidableEq Column] in
theorem select_nil : select [] table = table :=
  Multiset.filter_eq_self.mpr fun _ _ _ member => nomatch member

omit [DecidableEq Column] in
theorem select_cons
    (condition : Column × Value) :
    select (condition :: conditions) table =
      scope condition.1 condition.2 (select conditions table) := by
  unfold select scope
  rw [Multiset.filter_filter]
  exact Multiset.filter_congr fun row _ => List.forall_mem_cons

/-- An upsert of a row that meets the conditions sees only such rows. -/
theorem select_upsert_self
    (keyed : ∀ condition ∈ conditions,
      condition.1 ∈ target ∧ condition.1 ∉ updates)
    (proposes : Meets conditions (excluded defaults columns params)) :
    select conditions
        (execute defaults table (.upsert columns target updates) params) =
      execute defaults (select conditions table)
        (.upsert columns target updates) params := by
  induction conditions with
  | nil => rw [select_nil, select_nil]
  | cons condition conditions inductionHypothesis =>
      rw [List.forall_mem_cons] at keyed
      obtain ⟨proposed, rest⟩ := List.forall_mem_cons.mp proposes
      rw [select_cons, select_cons, inductionHypothesis keyed.2 rest,
        scope_upsert_self keyed.1.1 keyed.1.2 proposed]

/-- An upsert of a row that misses one of the conditions leaves the rows that
meet them. -/
theorem select_upsert_other
    (keyed : ∀ condition ∈ conditions,
      condition.1 ∈ target ∧ condition.1 ∉ updates)
    (filled : ∀ condition ∈ conditions,
      excluded defaults columns params condition.1 ≠ none)
    (misses : ¬Meets conditions (excluded defaults columns params)) :
    select conditions
        (execute defaults table (.upsert columns target updates) params) =
      select conditions table := by
  induction conditions with
  | nil => exact absurd (fun _ member => nomatch member) misses
  | cons condition conditions inductionHypothesis =>
      rw [List.forall_mem_cons] at keyed filled
      rw [select_cons, select_cons]
      by_cases rest : Meets conditions (excluded defaults columns params)
      · obtain ⟨other, proposed⟩ := Option.ne_none_iff_exists'.mp filled.1
        have different : other ≠ condition.2 := by
          rintro rfl
          exact misses (List.forall_mem_cons.mpr ⟨proposed, rest⟩)
        rw [select_upsert_self keyed.2 rest,
          scope_upsert_other keyed.1.1 keyed.1.2 proposed different]
      · rw [inductionHypothesis keyed.2 filled.2 rest]

theorem select_delete :
    select conditions (execute defaults table (.delete columns) params) =
      execute defaults (select conditions table) (.delete columns) params :=
  Multiset.filter_comm _ _ table

theorem execute_upsert_zero :
    execute defaults 0 (.upsert columns target updates) params =
      {excluded defaults columns params} := by
  simp [execute]

theorem execute_upsert_singleton
    {row : Row Column Value}
    (conflicts : Conflicts target (excluded defaults columns params) row) :
    execute defaults {row} (.upsert columns target updates) params =
      {fun column =>
        if column ∈ updates then excluded defaults columns params column
        else row column} := by
  have occupied : ¬∀ other ∈ ({row} : Multiset (Row Column Value)),
      ¬Conflicts target (excluded defaults columns params) other :=
    fun free => free row (Multiset.mem_singleton_self row) conflicts
  simp only [execute, if_neg occupied, Multiset.map_singleton, overwrite,
    if_pos conflicts]

/-- A delete from rows that all meet its conditions or all miss them. -/
theorem execute_delete_of_iff
    {deletes : Prop}
    [Decidable deletes]
    (alike : ∀ row ∈ table, Meets (columns.zip params) row ↔ deletes) :
    execute defaults table (.delete columns) params =
      if deletes then 0 else table := by
  split <;> rename_i deleted
  · refine Multiset.filter_eq_nil.mpr fun row member kept => ?_
    exact kept ((alike row member).mpr deleted)
  · refine Multiset.filter_eq_self.mpr fun row member meets => ?_
    exact deleted ((alike row member).mp meets)

end Select

/-! ## Tables with a key -/

section Key

variable {defaults proposed row : Row Column Value}
variable {table : Multiset (Row Column Value)}
variable {columns target updates : List Column}
variable {params : List Value}
variable {conditions : List (Column × Value)}

/-- At most one row has given values in the columns of the key. -/
def Keyed (key : List Column) (table : Multiset (Row Column Value)) : Prop :=
  ∀ values : List Value, values.length = key.length →
    (select (key.zip values) table).card ≤ 1

/-- The rows that miss one of the conditions. -/
def reject (conditions : List (Column × Value))
    (table : Multiset (Row Column Value)) : Multiset (Row Column Value) :=
  table.filter fun row => ¬Meets conditions row

omit [DecidableEq Value] in
/-- A proposed row has the parameters in its columns. -/
theorem meets_excluded
    (distinct : columns.Nodup)
    (length : params.length = columns.length)
    (defaults : Row Column Value) :
    Meets (columns.zip params) (excluded defaults columns params) := by
  have names : ((columns.zip params).map Prod.fst).Nodup := by
    rw [List.map_fst_zip length.ge]
    exact distinct
  intro condition member
  rw [excluded, (Assoc.lookup_eq_some_iff names).mpr member, Option.some_or]

omit [DecidableEq Value] in
theorem excluded_of_notMem
    {column : Column}
    (absent : column ∉ columns)
    (defaults : Row Column Value)
    (params : List Value) :
    excluded defaults columns params column = defaults column := by
  have unset : (columns.zip params).lookup column = none := by
    refine Assoc.lookup_eq_none_iff.mpr fun named => absent ?_
    obtain ⟨pair, member, rfl⟩ := List.mem_map.mp named
    exact (List.of_mem_zip member).1
  rw [excluded, unset, Option.none_or]

omit [DecidableEq Column] [DecidableEq Value] in
/-- If the conditions say what the proposed row has in the target, then the
rows in conflict with it are those that meet the conditions. -/
theorem conflicts_iff_meets
    (names : conditions.map Prod.fst = target)
    (proposes : Meets conditions proposed) :
    Conflicts target proposed row ↔ Meets conditions row := by
  subst names
  constructor
  · intro conflicts condition member
    rw [(conflicts condition.1 (List.mem_map_of_mem member)).2]
    exact proposes condition member
  · intro meets column named
    obtain ⟨condition, member, rfl⟩ := List.mem_map.mp named
    rw [meets condition member, proposes condition member]
    exact ⟨Option.some_ne_none _, rfl⟩

/-- An upsert leaves the rows with another key. -/
theorem reject_upsert
    (names : conditions.map Prod.fst = target)
    (kept : ∀ column ∈ target, column ∉ updates)
    (proposes : Meets conditions (excluded defaults columns params)) :
    reject conditions
        (execute defaults table (.upsert columns target updates) params) =
      reject conditions table := by
  have keeps : ∀ row, Meets conditions (overwrite target updates
      (excluded defaults columns params) row) ↔ Meets conditions row := by
    intro row
    refine forall₂_congr fun condition member => ?_
    rw [overwrite_apply (kept condition.1
      (names ▸ List.mem_map_of_mem member))]
  simp only [execute, reject]
  split
  · exact Multiset.filter_cons_of_neg _ (not_not_intro proposes)
  · rw [Multiset.filter_map]
    simp only [Function.comp_def, keeps]
    refine (Multiset.map_congr rfl fun row member => ?_).trans
      (Multiset.map_id _)
    have misses := (Multiset.mem_filter.mp member).2
    exact if_neg fun conflicts =>
      misses ((conflicts_iff_meets names proposes).mp conflicts)

/-- An upsert into a table with a key leaves one row with its key, which has
the parameters and otherwise what was there before. -/
theorem select_upsert_of_card_le_one
    (names : conditions.map Prod.fst = target)
    (kept : ∀ column ∈ target, column ∉ updates)
    (proposes : Meets conditions (excluded defaults columns params))
    (single : (select conditions table).card ≤ 1) :
    ∃ row, select conditions
          (execute defaults table (.upsert columns target updates) params) =
        {row} ∧
      (∀ column ∈ target ++ updates,
        row column = excluded defaults columns params column) ∧
      ∀ column ∉ target ++ updates,
        (∃ old ∈ select conditions table, row column = old column) ∨
          select conditions table = 0 ∧
            row column = excluded defaults columns params column := by
  have keyed : ∀ condition ∈ conditions,
      condition.1 ∈ target ∧ condition.1 ∉ updates := by
    intro condition member
    have targeted := names ▸ List.mem_map_of_mem (f := Prod.fst) member
    exact ⟨targeted, kept _ targeted⟩
  rw [select_upsert_self keyed proposes]
  rcases Nat.le_one_iff_eq_zero_or_eq_one.mp single with zero | one
  · rw [Multiset.card_eq_zero] at zero
    rw [zero, execute_upsert_zero]
    exact ⟨_, rfl, fun _ _ => rfl, fun _ _ => .inr ⟨rfl, rfl⟩⟩
  · obtain ⟨old, one⟩ := Multiset.card_eq_one.mp one
    have meets : Meets conditions old := by
      have member : old ∈ select conditions table := by simp [one]
      exact (Multiset.mem_filter.mp member).2
    have conflicts := (conflicts_iff_meets names proposes).mpr meets
    rw [one, execute_upsert_singleton conflicts]
    refine ⟨_, rfl, fun column member => ?_, fun column absent => ?_⟩
    · by_cases updated : column ∈ updates
      · exact if_pos updated
      · rw [if_neg updated]
        exact (conflicts column
          ((List.mem_append.mp member).resolve_right updated)).2
    · rw [List.mem_append, not_or] at absent
      exact .inl ⟨old, Multiset.mem_singleton_self old, if_neg absent.2⟩

end Key

end Sql
