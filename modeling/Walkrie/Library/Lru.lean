import Walkrie.Library.Assoc

/-!
# Least recently used

A cache that evicts what was used least recently, as the list of its entries
with the last one used in front.  Whatever its capacity, it holds the first
entries of the cache that never evicts: an eviction never changes the order of
what stays, and what has been evicted would have come later.
-/

namespace Lru

variable {Key Value : Type*} [DecidableEq Key]

/-- The keys in the order of their last use, after one more. -/
def use (key : Key) (order : List Key) : List Key :=
  key :: order.filter (· ≠ key)

/-- Keys of the entries. -/
def keys (entries : List (Key × Value)) : List Key :=
  entries.map Prod.fst

/-- An entry in front, in place of the one with its key. -/
def front (key : Key) (value : Value) (entries : List (Key × Value)) :
    List (Key × Value) :=
  (key, value) :: entries.filter fun entry => entry.1 ≠ key

/-- Use an entry that is there. -/
def touch (key : Key) (entries : List (Key × Value)) : List (Key × Value) :=
  match entries.lookup key with
  | none => entries
  | some value => front key value entries

/-- Store an entry, and evict what exceeds the capacity. -/
def put (capacity : Nat) (key : Key) (value : Value)
    (entries : List (Key × Value)) : List (Key × Value) :=
  (front key value entries).take capacity

/-! ## The order -/

section Order

variable {key : Key}
variable {order : List Key}

@[simp]
theorem mem_use
    {other : Key} :
    other ∈ use key order ↔ other = key ∨ other ∈ order := by
  by_cases same : other = key <;> simp [use, same]

theorem nodup_use
    (nodup : order.Nodup) :
    (use key order).Nodup := by
  simp [use, nodup.filter]

theorem use_of_not_mem
    (absent : key ∉ order) :
    use key order = key :: order := by
  have kept : order.filter (· ≠ key) = order :=
    List.filter_eq_self.mpr fun other member =>
      decide_eq_true (ne_of_mem_of_not_mem member absent)
  rw [use, kept]

theorem length_filter_ne_of_mem
    (nodup : order.Nodup)
    (member : key ∈ order) :
    (order.filter (· ≠ key)).length + 1 = order.length := by
  have erased : order.filter (· ≠ key) = order.erase key := by
    rw [nodup.erase_eq_filter]
    refine List.filter_congr fun other _ => ?_
    by_cases same : other = key <;> simp [same]
  rw [erased, List.length_erase_of_mem member]
  exact Nat.sub_add_cancel (List.length_pos_of_mem member)

theorem length_use_of_mem
    (nodup : order.Nodup)
    (member : key ∈ order) :
    (use key order).length = order.length := by
  rw [use, List.length_cons, length_filter_ne_of_mem nodup member]

/-- A bounded order that is used stays the beginning of the unbounded one. -/
theorem take_use
    (capacity : Nat)
    (nodup : order.Nodup) :
    (use key (order.take capacity)).take capacity =
      (use key order).take capacity := by
  cases capacity with
  | zero => rfl
  | succ capacity =>
      simp only [use, List.take_succ_cons, List.cons.injEq, true_and]
      have parts : order.filter (· ≠ key) =
          (order.take (capacity + 1)).filter (· ≠ key) ++
            (order.drop (capacity + 1)).filter (· ≠ key) := by
        rw [← List.filter_append, List.take_append_drop]
      rw [parts, List.take_append]
      by_cases long : capacity + 1 ≤ order.length
      · -- At most one of the first keys is taken out.
        have enough : capacity ≤
            ((order.take (capacity + 1)).filter (· ≠ key)).length := by
          have length : (order.take (capacity + 1)).length = capacity + 1 := by
            rw [List.length_take]
            omega
          by_cases member : key ∈ order.take (capacity + 1)
          · have fewer := length_filter_ne_of_mem
              (nodup.sublist (List.take_sublist _ _)) member
            omega
          · have kept := congrArg List.length (use_of_not_mem member)
            rw [use, List.length_cons, List.length_cons] at kept
            omega
        rw [Nat.sub_eq_zero_of_le enough, List.take_zero, List.append_nil]
      · rw [List.drop_eq_nil_of_le (by omega), List.filter_nil, List.take_nil,
          List.append_nil]

/-- After several uses the keys used come first, the last one in front. -/
theorem foldl_use
    (uses order : List Key) :
    uses.foldl (fun order key => use key order) order =
      uses.dedup.reverse ++ order.filter (· ∉ uses) := by
  induction uses generalizing order with
  | nil => simp
  | cons key uses inductionHypothesis =>
      have kept : (order.filter (· ≠ key)).filter (· ∉ uses) =
          order.filter (· ∉ key :: uses) := by
        rw [List.filter_filter]
        refine List.filter_congr fun other _ => ?_
        simp [Bool.and_comm]
      rw [List.foldl_cons, inductionHypothesis, use]
      by_cases again : key ∈ uses
      · rw [List.filter_cons_of_neg (by simpa using again), kept,
          List.dedup_cons_of_mem again]
      · rw [List.filter_cons_of_pos (by simpa using again), kept,
          List.dedup_cons_of_notMem again, List.reverse_cons, List.append_assoc]
        rfl

/-- Keys are still held after several uses if no more of them were used than
the capacity. -/
theorem mem_take_foldl_use
    {uses : List Key}
    {capacity : Nat}
    (few : uses.toFinset.card ≤ capacity)
    (member : key ∈ uses) :
    key ∈ (uses.foldl (fun order key => use key order) order).take
      capacity := by
  rw [List.card_toFinset, ← List.length_reverse] at few
  rw [foldl_use, List.take_append, List.take_of_length_le few]
  exact List.mem_append_left _ (by simpa using member)

/-- One of the keys is gone if more of them were used than the capacity. -/
theorem exists_notMem_take_foldl_use
    {uses : List Key}
    {capacity : Nat}
    (many : capacity < uses.toFinset.card) :
    ∃ key ∈ uses,
      key ∉ (uses.foldl (fun order key => use key order) order).take
        capacity := by
  by_contra all
  push Not at all
  have among : uses.toFinset ⊆
      ((uses.foldl (fun order key => use key order) order).take
        capacity).toFinset := by
    intro key member
    rw [List.mem_toFinset] at member ⊢
    exact all key member
  have fits := (Finset.card_le_card among).trans
    ((List.toFinset_card_le _).trans (List.length_take_le _ _))
  omega

end Order

/-! ## The entries -/

section Entries

variable {key : Key}
variable {value : Value}
variable {entries : List (Key × Value)}

@[simp]
theorem keys_front :
    keys (front key value entries) = use key (keys entries) := by
  simp [keys, front, use, List.filter_map, Function.comp_def]

theorem keys_put
    (capacity : Nat) :
    keys (put capacity key value entries) =
      (use key (keys entries)).take capacity := by
  rw [← keys_front, keys, put, List.map_take, ← keys]

theorem mem_front
    {entry : Key × Value} :
    entry ∈ front key value entries ↔
      entry = (key, value) ∨ entry ∈ entries ∧ entry.1 ≠ key := by
  simp [front]

theorem front_of_not_mem
    (absent : key ∉ keys entries) :
    front key value entries = (key, value) :: entries := by
  have kept : (entries.filter fun entry => entry.1 ≠ key) = entries :=
    List.filter_eq_self.mpr fun entry member => decide_eq_true
      (ne_of_mem_of_not_mem (List.mem_map_of_mem member) absent)
  rw [front, kept]

theorem touch_of_not_mem
    (absent : key ∉ keys entries) :
    touch key entries = entries := by
  rw [touch, Assoc.lookup_eq_none_iff.mpr absent]

/-- Using an entry keeps all of them. -/
theorem mem_touch
    (nodup : (keys entries).Nodup)
    {entry : Key × Value} :
    entry ∈ touch key entries ↔ entry ∈ entries := by
  unfold touch
  split
  · rfl
  · rename_i value found
    have present := (Assoc.lookup_eq_some_iff nodup).mp found
    rw [mem_front]
    constructor
    · rintro (rfl | ⟨member, _⟩)
      · exact present
      · exact member
    · intro member
      by_cases same : entry.1 = key
      · obtain ⟨other, value'⟩ := entry
        subst same
        have unique := ((Assoc.lookup_eq_some_iff nodup).mpr member).symm.trans found
        cases unique
        exact .inl rfl
      · exact .inr ⟨member, same⟩

theorem keys_touch_of_mem
    (member : key ∈ keys entries) :
    keys (touch key entries) = use key (keys entries) := by
  unfold touch
  split
  · rename_i absent
    exact absurd member (Assoc.lookup_eq_none_iff.mp absent)
  · exact keys_front

theorem nodup_touch
    (nodup : (keys entries).Nodup)
    (key : Key) :
    (keys (touch key entries)).Nodup := by
  by_cases member : key ∈ keys entries
  · rw [keys_touch_of_mem member]
    exact nodup_use nodup
  · rw [touch_of_not_mem member]
    exact nodup

/-- Using an entry changes no value. -/
theorem lookup_touch
    (nodup : (keys entries).Nodup)
    (key other : Key) :
    (touch key entries).lookup other = entries.lookup other := by
  apply Option.ext
  intro value
  rw [Assoc.lookup_eq_some_iff (nodup_touch nodup key), mem_touch nodup,
    Assoc.lookup_eq_some_iff nodup]

/-- A store keeps only what was there, and the new entry. -/
theorem mem_of_mem_put
    {capacity : Nat}
    {entry : Key × Value}
    (member : entry ∈ put capacity key value entries) :
    entry = (key, value) ∨ entry ∈ entries ∧ entry.1 ≠ key :=
  mem_front.mp (List.mem_of_mem_take member)

end Entries

end Lru
