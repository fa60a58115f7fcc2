import Walkrie.Library.Sql

/-!
# Statements as texts

A statement as it is sent to a server names its parameters by number, where
the library of statements goes by the order of the columns.  The two agree for
a statement that numbers its parameters in the order of its columns, and is
executed with as many as it has columns.
-/

namespace Sql

/-- `$number`, or `$number::type`. -/
structure Placeholder where
  number : Nat
  cast : Option String := none
  deriving DecidableEq

/-- A statement with numbered parameters. -/
inductive Prepared
  | insert (table : String) (columns : List String)
      (values : List Placeholder) (target updates : List String)
  | delete (table : String) (columns : List String)
      (values : List Placeholder)
  deriving DecidableEq

namespace Placeholder

def render (placeholder : Placeholder) : String :=
  "$" ++ toString placeholder.number ++
    match placeholder.cast with
    | none => ""
    | some type => "::" ++ type

/-- The parameter it stands for. -/
def bound {Value : Type*} (params : List Value) (placeholder : Placeholder) :
    Option Value :=
  match placeholder.number with
  | 0 => none
  | index + 1 => params[index]?

end Placeholder

namespace Prepared

/-- The text of a statement. -/
def render : Prepared → String
  | .insert table columns values target updates =>
      "INSERT INTO " ++ table ++
        " (" ++ ", ".intercalate columns ++ ")" ++
        " VALUES (" ++ ", ".intercalate (values.map Placeholder.render) ++
        ")" ++
        " ON CONFLICT (" ++ ", ".intercalate target ++
        ") DO UPDATE SET " ++
        ", ".intercalate (updates.map fun column =>
          column ++ " = EXCLUDED." ++ column)
  | .delete table [] _ => "DELETE FROM " ++ table
  | .delete table columns values =>
      "DELETE FROM " ++ table ++ " WHERE " ++
        " AND ".intercalate (List.zipWith
          (fun column value => column ++ " = " ++ value.render)
          columns values)

/-- The columns that get a parameter. -/
def columns : Prepared → List String
  | .insert _ columns _ _ _ => columns
  | .delete _ columns _ => columns

def placeholders : Prepared → List Placeholder
  | .insert _ _ values _ _ => values
  | .delete _ _ values => values

/-- The statement that goes by the order of the columns. -/
def statement : Prepared → Statement String
  | .insert _ columns _ target updates => .upsert columns target updates
  | .delete _ columns _ => .delete columns

variable {Value : Type*} [DecidableEq Value]

/-- What the server does: it refuses a number of parameters that is not the
highest number of a placeholder. -/
def run (defaults : Row String Value) (table : Multiset (Row String Value))
    (prepared : Prepared) (params : List Value) :
    Option (Multiset (Row String Value)) :=
  if params.length =
      (prepared.placeholders.map Placeholder.number).foldl max 0 then
    (prepared.placeholders.mapM (Placeholder.bound params)).map
      (execute defaults table prepared.statement)
  else none

end Prepared

/-! ## Parameters numbered in order -/

section Numbered

variable {Column Value : Type*}

/-- A placeholder for each column, numbered from one. -/
def numbered (cast : Column → Option String) (columns : List Column) :
    List Placeholder :=
  columns.zipIdx.map fun column =>
    { number := column.2 + 1, cast := cast column.1 }

variable {cast : Column → Option String}
variable {columns : List Column}

theorem number_numbered :
    (numbered cast columns).map Placeholder.number =
      List.range' 1 columns.length := by
  have positions : (numbered cast columns).map Placeholder.number =
      (columns.zipIdx.map Prod.snd).map (1 + ·) := by
    rw [numbered, List.map_map, List.map_map]
    exact List.map_congr_left fun column _ => Nat.add_comm column.2 1
  rw [positions, List.zipIdx_map_snd, List.map_add_range']

theorem cast_numbered :
    (numbered cast columns).map Placeholder.cast = columns.map cast := by
  have names : (numbered cast columns).map Placeholder.cast =
      (columns.zipIdx.map Prod.fst).map cast := by
    rw [numbered, List.map_map, List.map_map]
    rfl
  rw [names, List.zipIdx_map_fst]

/-- The induction is on the columns, behind parameters that have been bound
before. -/
theorem mapM_zipIdx_getElem?
    {params : List Value}
    (length : params.length = columns.length)
    (front : List Value) :
    (columns.zipIdx front.length).mapM
        (fun column => (front ++ params)[column.2]?) = some params := by
  induction columns generalizing front params with
  | nil =>
      obtain rfl := List.length_eq_zero_iff.mp length
      rfl
  | cons column columns inductionHypothesis =>
      cases params with
      | nil => cases length
      | cons param params =>
          have rest := inductionHypothesis (Nat.succ.inj length)
            (front ++ [param])
          rw [List.length_append, List.length_singleton,
            List.append_assoc, List.singleton_append] at rest
          rw [List.zipIdx_cons, List.mapM_cons, rest]
          simp

theorem mapM_bound_numbered
    {params : List Value}
    (length : params.length = columns.length) :
    (numbered cast columns).mapM (Placeholder.bound params) =
      some params := by
  rw [numbered, List.mapM_map]
  exact mapM_zipIdx_getElem? length []

theorem foldl_max_range' (count : Nat) :
    (List.range' 1 count).foldl max 0 = count := by
  induction count with
  | zero => rfl
  | succ count inductionHypothesis =>
      rw [List.range'_concat, List.foldl_append, inductionHypothesis,
        List.foldl_cons, List.foldl_nil]
      omega

/-- With its parameters numbered in order, a statement does what goes by the
order of its columns. -/
theorem run_of_numbered
    [DecidableEq Value]
    {prepared : Prepared}
    {cast : String → Option String}
    (placeholders : prepared.placeholders = numbered cast prepared.columns)
    {params : List Value}
    (length : params.length = prepared.columns.length)
    (defaults : Row String Value)
    (table : Multiset (Row String Value)) :
    prepared.run defaults table params =
      some (execute defaults table prepared.statement params) := by
  rw [Prepared.run, placeholders, number_numbered, foldl_max_range',
    if_pos length, mapM_bound_numbered length, Option.map_some]

end Numbered

end Sql
