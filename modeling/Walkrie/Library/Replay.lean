import Mathlib

/-!
# Replaying a log of operations

A log is applied in order, but the process that applies it may stop at any
operation and go on from any earlier one.  What makes that harmless is one law
of the operations: an application of an operation does not show once the same
operation is applied again later.  From it follows that the state, at any
moment, is led to the same final state by every remainder of the log that
starts no later than one past the operation applied last.
-/

namespace Replay

variable {State Op : Type*}

/-- An application of an operation does not show once the operation is applied
again, whatever is applied between. -/
def Superseding (apply : State → Op → State) : Prop :=
  ∀ state op between,
    (between ++ [op]).foldl apply (apply state op) =
      (between ++ [op]).foldl apply state

/-- Every remainder of the log that starts no later than the frontier leads
from the state to the final state. -/
def Converges
    (apply : State → Op → State)
    (log : List Op)
    (final : State)
    (frontier : Nat)
    (state : State) : Prop :=
  ∀ start ≤ frontier, (log.drop start).foldl apply state = final

variable {apply : State → Op → State}

/-- Apply the operation an entry of a log stands for, if any. -/
def applyEntry
    {Entry : Type*}
    (apply : State → Op → State)
    (read : Entry → Option Op)
    (state : State)
    (entry : Entry) : State :=
  (read entry).elim state (apply state)

theorem foldl_applyEntry
    {Entry : Type*}
    (apply : State → Op → State)
    (read : Entry → Option Op)
    (entries : List Entry)
    (state : State) :
    entries.foldl (applyEntry apply read) state =
      (entries.filterMap read).foldl apply state := by
  induction entries generalizing state with
  | nil => rfl
  | cons entry entries inductionHypothesis =>
      rw [List.foldl_cons, inductionHypothesis, List.filterMap_cons]
      unfold applyEntry
      cases read entry <;> rfl

/-- Entries that stand for no operation do not disturb the law. -/
theorem Superseding.applyEntry
    {Entry : Type*}
    (superseding : Superseding apply)
    (read : Entry → Option Op) :
    Superseding (applyEntry apply read) := by
  intro state entry between
  rw [foldl_applyEntry, foldl_applyEntry, List.filterMap_append]
  cases known : read entry with
  | none => simp [Replay.applyEntry, known]
  | some op =>
      have law := superseding state op (between.filterMap read)
      simpa [Replay.applyEntry, known] using law

variable {log : List Op}
variable {final state : State}
variable {frontier : Nat}

/-- Before anything is applied only the whole log may be replayed. -/
theorem converges_zero
    (apply : State → Op → State)
    (log : List Op)
    (state : State) :
    Converges apply log (log.foldl apply state) 0 state := by
  intro start early
  rw [Nat.le_zero.mp early, List.drop_zero]

theorem Converges.mono
    (converges : Converges apply log final frontier state)
    {earlier : Nat}
    (ordered : earlier ≤ frontier) :
    Converges apply log final earlier state :=
  fun start early => converges start (Nat.le_trans early ordered)

/-- With the frontier at the end of the log the final state is reached. -/
theorem Converges.eq_final
    (converges : Converges apply log final frontier state)
    (complete : log.length ≤ frontier) :
    state = final := by
  have last := converges log.length complete
  rwa [List.drop_length] at last

/-- Applying an operation at or before the frontier moves the frontier right
behind that operation. -/
theorem Converges.advance
    (superseding : Superseding apply)
    (converges : Converges apply log final frontier state)
    {position : Nat}
    (reached : position ≤ frontier)
    {op : Op}
    (present : log[position]? = some op) :
    Converges apply log final (position + 1) (apply state op) := by
  obtain ⟨inside, rfl⟩ := List.getElem?_eq_some_iff.mp present
  intro start early
  rcases Nat.lt_or_eq_of_le early with before | rfl
  · -- The operation is applied again by the remainder that starts here.
    have ordered : start ≤ position := Nat.le_of_lt_succ before
    have split : log.drop start =
        ((log.drop start).take (position - start) ++ [log[position]]) ++
          log.drop (position + 1) := by
      have rest : (log.drop start).drop (position - start) =
          log[position] :: log.drop (position + 1) := by
        rw [List.drop_drop, Nat.add_sub_cancel' ordered,
          List.drop_eq_getElem_cons inside]
      rw [List.append_assoc, List.singleton_append, ← rest,
        List.take_append_drop]
    rw [split, List.foldl_append, superseding, ← List.foldl_append, ← split]
    exact converges start (Nat.le_trans ordered reached)
  · have whole := converges position reached
    rwa [List.drop_eq_getElem_cons inside, List.foldl_cons] at whole

/-- Applying a stretch of the log that starts at or before the frontier moves
the frontier to its end. -/
theorem Converges.stretch
    (superseding : Superseding apply)
    {position : Nat}
    (reached : position ≤ frontier)
    (converges : Converges apply log final frontier state)
    (count : Nat)
    (inside : position + count ≤ log.length) :
    Converges apply log final (position + count)
      (((log.drop position).take count).foldl apply state) := by
  induction count with
  | zero => exact converges.mono reached
  | succ count inductionHypothesis =>
      have here : position + count < log.length := by omega
      have last : (log.drop position).take (count + 1) =
          (log.drop position).take count ++ [log[position + count]] := by
        rw [List.take_add_one, List.getElem?_drop, List.getElem?_eq_getElem here,
          Option.toList_some]
      rw [last, List.foldl_append]
      exact (inductionHypothesis (by omega)).advance superseding le_rfl
        (List.getElem?_eq_getElem here)

end Replay
