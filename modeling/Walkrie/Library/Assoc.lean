import Mathlib

/-!
# Association lists

Pairs of a key and a value.  Read from the front, the first pair of a key
counts; read as assignments made one after the other, the last one does.  With
one pair for each key the two agree, and the pairs are all there is to know.
-/

namespace Assoc

variable {Key Value : Type*} [DecidableEq Key]
variable {pairs others : List (Key × Value)}
variable {key : Key}
variable {value : Value}

theorem lookup_eq_some_iff
    (nodup : (pairs.map Prod.fst).Nodup) :
    pairs.lookup key = some value ↔ (key, value) ∈ pairs := by
  induction pairs with
  | nil => simp
  | cons pair pairs inductionHypothesis =>
      obtain ⟨other, found⟩ := pair
      rw [List.map_cons, List.nodup_cons] at nodup
      by_cases same : key = other
      · subst same
        have alone : (key, value) ∉ pairs := fun member =>
          nodup.1 (List.mem_map.mpr ⟨_, member, rfl⟩)
        simp [alone, eq_comm]
      · have different : (key == other) = false :=
          beq_eq_false_iff_ne.mpr same
        rw [List.lookup_cons, different, List.mem_cons]
        simp only
        rw [inductionHypothesis nodup.2]
        simp [same]

theorem lookup_eq_none_iff :
    pairs.lookup key = none ↔ key ∉ pairs.map Prod.fst := by
  rw [List.lookup_eq_none_iff]
  simp only [List.mem_map, not_exists, not_and, bne_iff_ne]
  exact forall₂_congr fun _ _ => ne_comm

/-- The value a key is assigned last. -/
def last (pairs : List (Key × Value)) (key : Key) : Option Value :=
  pairs.reverse.lookup key

@[simp]
theorem last_nil : last ([] : List (Key × Value)) key = none := rfl

theorem last_append :
    last (pairs ++ others) key = (last others key).or (last pairs key) := by
  rw [last, List.reverse_append, List.lookup_append]
  rfl

theorem last_cons
    (pair : Key × Value) :
    last (pair :: pairs) key =
      (last pairs key).or (if key = pair.1 then some pair.2 else none) := by
  obtain ⟨other, found⟩ := pair
  have single : last [(other, found)] key =
      if key = other then some found else none := by
    by_cases same : key = other
    · simp [last, same]
    · simp [last, List.lookup_cons, beq_eq_false_iff_ne.mpr same, same]
  rw [← List.singleton_append, last_append, single]

theorem mem_of_last
    (assigned : last pairs key = some value) :
    (key, value) ∈ pairs := by
  induction pairs with
  | nil => simp at assigned
  | cons pair pairs inductionHypothesis =>
      rw [last_cons, Option.or_eq_some_iff] at assigned
      rcases assigned with later | ⟨_, now⟩
      · exact List.mem_cons_of_mem _ (inductionHypothesis later)
      · obtain ⟨rfl, same⟩ := Option.ite_none_right_eq_some.mp now
        cases same
        exact List.mem_cons_self

theorem last_eq_some_iff
    (nodup : (pairs.map Prod.fst).Nodup) :
    last pairs key = some value ↔ (key, value) ∈ pairs := by
  have reversed : (pairs.reverse.map Prod.fst).Nodup := by
    rw [List.map_reverse]
    exact List.nodup_reverse.mpr nodup
  rw [last, lookup_eq_some_iff reversed, List.mem_reverse]

theorem last_eq_none_iff :
    last pairs key = none ↔ key ∉ pairs.map Prod.fst := by
  rw [last, lookup_eq_none_iff, List.map_reverse, List.mem_reverse]

/-- A list after several positions have been assigned. -/
theorem getElem?_foldl_set
    (pairs : List (Nat × Value))
    (values : List Value)
    (position : Nat) :
    (pairs.foldl (fun values pair => values.set pair.1 pair.2) values)[
        position]? =
      values[position]?.map fun value => (last pairs position).getD value := by
  induction pairs generalizing values with
  | nil => simp
  | cons pair pairs inductionHypothesis =>
      rw [List.foldl_cons, inductionHypothesis, last_cons, List.getElem?_set]
      by_cases same : pair.1 = position
      · subst same
        by_cases inside : pair.1 < values.length
        · rw [if_pos rfl, if_pos inside, List.getElem?_eq_getElem inside]
          cases last pairs pair.1 <;> simp
        · rw [if_pos rfl, if_neg inside,
            List.getElem?_eq_none (Nat.le_of_not_lt inside)]
          rfl
      · rw [if_neg same, if_neg (Ne.symm same), Option.or_none]

end Assoc
