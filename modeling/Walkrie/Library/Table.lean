import Walkrie.Library.Assoc

/-!
# Tables with a primary key

A table is an association list without duplicate keys, in insertion order.
The operations are the statements a program issues against such a table; each
comes with the value every key has afterwards, and later proofs use nothing
else about it.
-/

/-- Rows by primary key, in insertion order. -/
abbrev Table (Key Value : Type*) := AList fun _ : Key => Value

namespace Table

variable {Key Value : Type*}

/-- Rewrite the value of every row. -/
def updateAll (table : Table Key Value) (rewrite : Key → Value → Value) :
    Table Key Value where
  entries := table.entries.map fun row => ⟨row.1, rewrite row.1 row.2⟩
  nodupKeys := by
    have keys : List.keys (table.entries.map fun row =>
        (⟨row.1, rewrite row.1 row.2⟩ : Sigma fun _ : Key => Value)) =
        table.entries.keys := by
      simp [List.keys]
    unfold List.NodupKeys
    rw [keys]
    exact table.nodupKeys

@[simp]
theorem keys_updateAll
    (table : Table Key Value)
    (rewrite : Key → Value → Value) :
    (updateAll table rewrite).keys = table.keys := by
  simp [updateAll, AList.keys, List.keys]

variable [DecidableEq Key]

/-- A table is given by its keys, in order, and the value of each. -/
theorem ext_lookup
    {table other : Table Key Value}
    (keys : table.keys = other.keys)
    (values : ∀ key, table.lookup key = other.lookup key) :
    table = other := by
  have entries : ∀ table : Table Key Value, table.entries.map some =
      table.keys.map fun key => (table.lookup key).map (Sigma.mk key) := by
    intro table
    rw [AList.keys, List.keys, List.map_map]
    refine List.map_congr_left fun row member => ?_
    have found : table.lookup row.1 = some row.2 :=
      AList.mem_lookup_iff.mpr member
    rw [Function.comp_apply, found]
    rfl
  refine AList.ext (List.map_injective_iff.mpr (Option.some_injective _) ?_)
  rw [entries, entries, keys]
  simp only [values]

theorem eq_empty_of_lookup
    {table : Table Key Value}
    (absent : ∀ key, table.lookup key = none) :
    table = ∅ := by
  refine ext_lookup (List.eq_nil_iff_forall_not_mem.mpr fun key member => ?_)
    fun key => absent key
  exact AList.lookup_eq_none.mp (absent key) member

@[simp]
theorem lookup_updateAll
    (table : Table Key Value)
    (rewrite : Key → Value → Value)
    (key : Key) :
    (updateAll table rewrite).lookup key =
      (table.lookup key).map (rewrite key) := by
  have mapped : ∀ rows : List (Sigma fun _ : Key => Value),
      (List.dlookup key (rows.map fun row =>
        (⟨row.1, rewrite row.1 row.2⟩ : Sigma fun _ : Key => Value)) :
          Option Value) =
        (List.dlookup key rows).map (rewrite key) := by
    intro rows
    induction rows with
    | nil => rfl
    | cons row rows inductionHypothesis =>
        by_cases same : key = row.1
        · obtain ⟨other, value⟩ := row
          cases same
          simp
        · have skipped := List.dlookup_cons_ne rows row same
          rw [List.map_cons, skipped, ← inductionHypothesis]
          exact List.dlookup_cons_ne _ (Sigma.mk _ _) same
  exact mapped table.entries

/-- Rewrite the value of one row, if it is there. -/
def update (table : Table Key Value) (key : Key) (rewrite : Value → Value) :
    Table Key Value :=
  updateAll table fun other value =>
    if other = key then rewrite value else value

@[simp]
theorem lookup_update
    (table : Table Key Value)
    (key other : Key)
    (rewrite : Value → Value) :
    (update table key rewrite).lookup other =
      if other = key then (table.lookup key).map rewrite
      else table.lookup other := by
  rw [update, lookup_updateAll]
  by_cases same : other = key
  · subst same
    simp only [if_true]
  · simp only [if_neg same, Option.map_id']

@[simp]
theorem keys_update
    (table : Table Key Value)
    (key : Key)
    (rewrite : Value → Value) :
    (update table key rewrite).keys = table.keys :=
  keys_updateAll _ _

/-- Append a row unless its key is taken. -/
def insertOrIgnore (table : Table Key Value) (key : Key) (value : Value) :
    Table Key Value :=
  table ∪ AList.singleton key value

@[simp]
theorem lookup_insertOrIgnore
    (table : Table Key Value)
    (key other : Key)
    (value : Value) :
    (insertOrIgnore table key value).lookup other =
      if other = key then some ((table.lookup key).getD value)
      else table.lookup other := by
  unfold insertOrIgnore
  by_cases taken : other ∈ table
  · rw [AList.lookup_union_left taken]
    obtain ⟨present, found⟩ :=
      Option.isSome_iff_exists.mp (AList.lookup_isSome.mpr taken)
    by_cases same : other = key
    · subst same
      simp [found]
    · rw [if_neg same]
  · rw [AList.lookup_union_right taken]
    have absent := AList.lookup_eq_none.mpr taken
    by_cases same : other = key
    · subst same
      rw [if_pos rfl, absent]
      rw [← AList.insert_empty, AList.lookup_insert]
      rfl
    · rw [if_neg same, absent]
      rw [← AList.insert_empty, AList.lookup_insert_ne same]
      rfl

/-- Append a row, or overwrite the one that has its key. -/
def upsert (table : Table Key Value) (key : Key) (value : Value) :
    Table Key Value :=
  update (insertOrIgnore table key value) key fun _ => value

@[simp]
theorem lookup_upsert
    (table : Table Key Value)
    (key other : Key)
    (value : Value) :
    (upsert table key value).lookup other =
      if other = key then some value else table.lookup other := by
  rw [upsert, lookup_update, lookup_insertOrIgnore, lookup_insertOrIgnore]
  by_cases same : other = key
  · simp [same]
  · simp [same]

/-- Of several assignments to a key the last one stays. -/
theorem lookup_foldl_upsert
    (pairs : List (Key × Value))
    (table : Table Key Value)
    (key : Key) :
    (pairs.foldl (fun table pair => upsert table pair.1 pair.2)
        table).lookup key = (Assoc.last pairs key).or (table.lookup key) := by
  induction pairs generalizing table with
  | nil => rfl
  | cons pair pairs inductionHypothesis =>
      rw [List.foldl_cons, inductionHypothesis, lookup_upsert,
        Assoc.last_cons, Option.or_assoc]
      by_cases same : key = pair.1
      · simp [same]
      · simp [same]

/-- A row that is there is overwritten in its place. -/
theorem keys_upsert
    {table : Table Key Value}
    {key : Key}
    (present : key ∈ table)
    (value : Value) :
    (upsert table key value).keys = table.keys := by
  have absorbed : ∀ rows : List (Sigma fun _ : Key => Value),
      key ∈ rows.keys → List.kunion rows [⟨key, value⟩] = rows := by
    intro rows member
    induction rows with
    | nil => cases member
    | cons row rows inductionHypothesis =>
        rw [List.kunion_cons]
        by_cases same : row.1 = key
        · rw [List.kerase_cons_eq same, List.kunion_nil]
        · rw [List.kerase_cons_ne same, List.kerase_nil,
            inductionHypothesis (List.mem_of_ne_of_mem (Ne.symm same) member)]
  rw [upsert, keys_update, AList.keys]
  exact congrArg List.keys (absorbed table.entries present)

/-- The value of every key once a row has been deleted. -/
theorem lookup_erase_eq
    (table : Table Key Value)
    (key other : Key) :
    (table.erase key).lookup other =
      if other = key then none else table.lookup other := by
  by_cases same : other = key
  · subst same
    simp
  · rw [if_neg same, AList.lookup_erase_ne same]

end Table
