import Walkrie.Library.Transition
import Walkrie.Backfill.Store

/-!
# Sharing the store

The process that dumps and absorbs rows and any number of workers have the
store open at the same time.  The database executes their statements one after
the other, so what happens to the store is a list of statements, of whichever
process each of them is.  Statements that only read are left out.
-/

namespace Walkrie
namespace Backfill

open Transition

/-- A statement that writes to the store. -/
inductive Statement
  | insertRow (sourceTable rowId : String) (rowData : RowData)
  /-- The rows the subquery returns are chosen by the database. -/
  | claimPending (limit : Nat) (selected : List (String × String))
  | updateRowData (sourceTable rowId : String) (rowData : RowData)
  | markDone (sourceTable rowId : String)
  | markTableDumpStarted (sourceTable : String)
  | markTableDumped (sourceTable : String) (rowCount : Nat)
  | resetStaleClaims
  /-- The two statements of `reset`. -/
  | deleteRows
  | deleteTables
  deriving DecidableEq

/-- The store after a statement. -/
def execute (store : BackfillStore) : Statement → Option BackfillStore
  | .insertRow sourceTable rowId rowData =>
      some (store.insertRow sourceTable rowId rowData)
  | .claimPending limit selected =>
      if store.Selects limit selected then
        some (store.claimPending selected).2
      else none
  | .updateRowData sourceTable rowId rowData =>
      some (store.updateRowData sourceTable rowId rowData).1
  | .markDone sourceTable rowId => some (store.markDone sourceTable rowId)
  | .markTableDumpStarted sourceTable =>
      some (store.markTableDumpStarted sourceTable)
  | .markTableDumped sourceTable rowCount =>
      some (store.markTableDumped sourceTable rowCount)
  | .resetStaleClaims => some store.resetStaleClaims
  | .deleteRows => some store.deleteRows
  | .deleteTables => some store.deleteTables

/-- The statement deletes the row, if it is there. -/
def Statement.Removes (key : String × String) : Statement → Prop
  | .markDone sourceTable rowId => key = (sourceTable, rowId)
  | .deleteRows => True
  | _ => False

/-- The statement stages the row, unless it is there. -/
def Statement.Stages (key : String × String) : Statement → Prop
  | .insertRow sourceTable rowId _ => key = (sourceTable, rowId)
  | _ => False

/-- The row is deleted and staged again later. -/
def Restaged (key : String × String) (statements : List Statement) : Prop :=
  ∃ earlier later, statements = earlier ++ later ∧
    (∃ statement ∈ earlier, statement.Removes key) ∧
    ∃ statement ∈ later, statement.Stages key

/-- Key of a claimed row. -/
def ClaimedRow.key (row : ClaimedRow) : String × String :=
  (row.sourceTable, row.rowId)

/-- A list of statements is executed up to this one, which takes the store
from one state to the next. -/
structure Occurs (start : BackfillStore) (statements before : List Statement)
    (statement : Statement) (store next : BackfillStore) : Prop where
  among : before ++ [statement] <+: statements
  reached : run execute start before = some store
  taken : execute store statement = some next

/-- What the processes that share the store can rely on. -/
structure Reliable (start : BackfillStore) (statements : List Statement) :
    Prop where
  /-- There is one row per key, and it is pending or claimed. -/
  wellFormed : ∀ before store, before <+: statements →
    run execute start before = some store →
      (store.rows.entries.map Sigma.fst).Nodup ∧
      ∀ key row, store.rows.lookup key = some row →
        row.status = .pending ∨ row.status = .claimed
  /-- A claim hands over as many pending rows as it can, each once and as it
  is stored. -/
  current : ∀ before limit selected store next,
    Occurs start statements before (.claimPending limit selected) store next →
      (store.claimPending selected).1.length =
          min limit store.pendingKeys.length ∧
        ((store.claimPending selected).1.map ClaimedRow.key).Nodup ∧
        ∀ row ∈ (store.claimPending selected).1,
          store.rows.lookup row.key = some ⟨row.rowData, .pending⟩
  /-- A row is handed over twice only if stale claims were reset in between,
  or it was deleted and staged again. -/
  exclusive : ∀ before limit selected store next,
    Occurs start statements before (.claimPending limit selected) store next →
    ∀ between limit' selected' store' next',
      Occurs start statements
        (before ++ .claimPending limit selected :: between)
        (.claimPending limit' selected') store' next' →
      ∀ row ∈ (store.claimPending selected).1,
        ∀ row' ∈ (store'.claimPending selected').1, row.key = row'.key →
          .resetStaleClaims ∈ between ∨ Restaged row.key between
  /-- A row disappears only when it is deleted. -/
  lasting : ∀ before statement store next,
    Occurs start statements before statement store next →
      ∀ key, store.rows.lookup key ≠ none → next.rows.lookup key = none →
        statement.Removes key

/-! ## One statement -/

section Statements

variable {store next : BackfillStore}
variable {statement : Statement}
variable {key : String × String}
variable {past : List Statement}

theorem execute_claimPending
    {limit : Nat}
    {selected : List (String × String)}
    (taken : execute store (.claimPending limit selected) = some next) :
    store.Selects limit selected ∧ next = (store.claimPending selected).2 := by
  by_cases selects : store.Selects limit selected
  · rw [execute, if_pos selects] at taken
    exact ⟨selects, (Option.some.inj taken).symm⟩
  · rw [execute, if_neg selects] at taken
    cases taken

/-- The keys handed over are those selected. -/
theorem map_key_claimPending
    {selected : List (String × String)}
    (pending : ∀ key ∈ selected, key ∈ store.pendingKeys) :
    (store.claimPending selected).1.map ClaimedRow.key = selected := by
  unfold BackfillStore.claimPending
  simp only
  induction selected with
  | nil => rfl
  | cons chosen selected inductionHypothesis =>
      rw [List.forall_mem_cons] at pending
      obtain ⟨rowData, found⟩ := BackfillStore.mem_pendingKeys.mp pending.1
      have present : store.getRowData chosen.1 chosen.2 = some rowData := by
        simp [BackfillStore.getRowData, found]
      rw [List.filterMap_cons, present]
      simp only [Option.map_some, List.map_cons]
      rw [inductionHypothesis pending.2]
      rfl

/-- A statement that does not delete a row leaves it in the store. -/
theorem removes_of_lookup
    (taken : execute store statement = some next)
    (present : store.rows.lookup key ≠ none)
    (absent : next.rows.lookup key = none) :
    statement.Removes key := by
  cases statement with
  | insertRow sourceTable rowId rowData =>
      cases taken
      rw [BackfillStore.lookup_insertRow] at absent
      split at absent
      · cases absent
      · exact absurd absent present
  | claimPending limit selected =>
      obtain ⟨_, rfl⟩ := execute_claimPending taken
      rw [BackfillStore.lookup_claimPending, Option.map_eq_none_iff] at absent
      exact absurd absent present
  | updateRowData sourceTable rowId rowData =>
      cases taken
      rw [BackfillStore.lookup_updateRowData] at absent
      split at absent <;> rename_i same
      · rw [Option.map_eq_none_iff, ← same] at absent
        exact absurd absent present
      · exact absurd absent present
  | markDone sourceTable rowId =>
      cases taken
      rw [BackfillStore.lookup_markDone] at absent
      split at absent <;> rename_i same
      · exact same
      · exact absurd absent present
  | resetStaleClaims =>
      cases taken
      simp only [BackfillStore.resetStaleClaims, Table.lookup_updateAll,
        Option.map_eq_none_iff] at absent
      exact absurd absent present
  | deleteRows => trivial
  | markTableDumpStarted | markTableDumped | deleteTables =>
      cases taken
      exact absurd absent present

/-- A row that has been handed over is claimed, or has been deleted since. -/
def Spent (key : String × String) (past : List Statement)
    (store : BackfillStore) : Prop :=
  (∃ rowData, store.rows.lookup key = some ⟨rowData, .claimed⟩) ∨
    store.rows.lookup key = none ∧
      ∃ statement ∈ past, statement.Removes key

theorem Spent.not_pending
    (spent : Spent key past store) :
    key ∉ store.pendingKeys := by
  intro pending
  obtain ⟨rowData, found⟩ := BackfillStore.mem_pendingKeys.mp pending
  rcases spent with ⟨claimed, present⟩ | ⟨absent, _⟩
  · rw [found] at present
    cases present
  · rw [found] at absent
    cases absent

/-- A statement that leaves a row alone. -/
theorem Spent.of_lookup
    (spent : Spent key past store)
    (same : next.rows.lookup key = store.rows.lookup key)
    (statement : Statement) :
    Spent key (past ++ [statement]) next := by
  rcases spent with claimed | ⟨absent, removal, member, removes⟩
  · exact .inl (same ▸ claimed)
  · exact .inr ⟨same.trans absent, removal, List.mem_append_left _ member,
      removes⟩

/-- A deleted row is spent. -/
theorem spent_of_removes
    (absent : next.rows.lookup key = none)
    (removes : statement.Removes key) :
    Spent key (past ++ [statement]) next :=
  .inr ⟨absent, statement, List.mem_append_right _ List.mem_cons_self,
    removes⟩

/-- A row stays spent unless stale claims are reset or it is staged again. -/
theorem Spent.execute
    (spent : Spent key past store)
    (kept : statement ≠ .resetStaleClaims)
    (taken : execute store statement = some next) :
    Spent key (past ++ [statement]) next ∨
      Restaged key (past ++ [statement]) := by
  cases statement with
  | insertRow sourceTable rowId rowData =>
      cases taken
      by_cases same : key = (sourceTable, rowId)
      · rcases spent with ⟨claimed, present⟩ | ⟨_, removal, member, removes⟩
        · refine .inl (.inl ⟨claimed, ?_⟩)
          rw [BackfillStore.lookup_insertRow, if_pos same, ← same, present]
          rfl
        · exact .inr ⟨past, _, rfl, ⟨removal, member, removes⟩,
            _, List.mem_cons_self, same⟩
      · refine .inl (spent.of_lookup ?_ _)
        rw [BackfillStore.lookup_insertRow, if_neg same]
  | claimPending limit selected =>
      obtain ⟨_, rfl⟩ := execute_claimPending taken
      left
      rcases spent with ⟨claimed, present⟩ | ⟨absent, removal, member, removes⟩
      · refine .inl ⟨claimed, ?_⟩
        rw [BackfillStore.lookup_claimPending, present]
        simp
      · refine .inr ⟨?_, removal, List.mem_append_left _ member, removes⟩
        rw [BackfillStore.lookup_claimPending, absent]
        rfl
  | updateRowData sourceTable rowId rowData =>
      cases taken
      left
      by_cases same : key = (sourceTable, rowId)
      · rcases spent with
          ⟨claimed, present⟩ | ⟨absent, removal, member, removes⟩
        · refine .inl ⟨rowData, ?_⟩
          rw [BackfillStore.lookup_updateRowData, if_pos same, ← same, present]
          rfl
        · refine .inr ⟨?_, removal, List.mem_append_left _ member, removes⟩
          rw [BackfillStore.lookup_updateRowData, if_pos same, ← same, absent]
          rfl
      · refine spent.of_lookup ?_ _
        rw [BackfillStore.lookup_updateRowData, if_neg same]
  | markDone sourceTable rowId =>
      cases taken
      left
      by_cases same : key = (sourceTable, rowId)
      · refine spent_of_removes ?_ same
        rw [BackfillStore.lookup_markDone, if_pos same]
      · refine spent.of_lookup ?_ _
        rw [BackfillStore.lookup_markDone, if_neg same]
  | resetStaleClaims => exact absurd rfl kept
  | deleteRows =>
      cases taken
      exact .inl (spent_of_removes rfl trivial)
  | markTableDumpStarted | markTableDumped | deleteTables =>
      cases taken
      exact .inl (spent.of_lookup rfl _)

theorem Restaged.append
    {statements : List Statement}
    (restaged : Restaged key statements)
    (others : List Statement) :
    Restaged key (statements ++ others) := by
  obtain ⟨earlier, later, rfl, removed, statement, member, stages⟩ := restaged
  exact ⟨earlier, later ++ others, List.append_assoc _ _ _, removed,
    statement, List.mem_append_left _ member, stages⟩

/-- The same over a list of statements. -/
theorem Spent.run
    {statements : List Statement}
    (spent : Spent key past store)
    (kept : .resetStaleClaims ∉ statements)
    (executed : run Backfill.execute store statements = some next) :
    Spent key (past ++ statements) next ∨
      Restaged key (past ++ statements) := by
  induction statements generalizing past store with
  | nil =>
      cases executed
      rw [List.append_nil]
      exact .inl spent
  | cons statement statements inductionHypothesis =>
      simp only [List.mem_cons, not_or] at kept
      cases taken : Backfill.execute store statement with
      | none => simp [Transition.run, taken] at executed
      | some after =>
          simp only [Transition.run, taken] at executed
          rw [List.append_cons]
          rcases spent.execute (Ne.symm kept.1) taken with still | again
          · exact inductionHypothesis still kept.2 executed
          · exact .inr (again.append statements)

end Statements

/-! ## Any number of processes -/

/-- Whatever the processes do and in whatever order, claims are exclusive,
complete and up to date, and rows are never lost. -/
theorem statements_reliable
    (start : BackfillStore)
    (statements : List Statement) :
    Reliable start statements where
  wellFormed := by
    intro before store _ _
    refine ⟨store.rows.nodupKeys, fun key row _ => ?_⟩
    cases row.status
    · exact .inl rfl
    · exact .inr rfl
  current := by
    intro before limit selected store next occurs
    obtain ⟨⟨distinct, pending, count⟩, _⟩ :=
      execute_claimPending occurs.taken
    have keys := map_key_claimPending pending
    refine ⟨?_, ?_, fun row member => ?_⟩
    · rw [← count, ← List.length_map, keys]
    · rw [keys]
      exact distinct
    · obtain ⟨chosen, found⟩ := BackfillStore.mem_claimPending.mp member
      obtain ⟨rowData, present⟩ :=
        BackfillStore.mem_pendingKeys.mp (pending _ chosen)
      rw [BackfillStore.getRowData, present] at found
      cases found
      exact present
  exclusive := by
    intro before limit selected store next occurs between limit' selected'
      store' next' again row member row' member' same
    by_cases reset : .resetStaleClaims ∈ between
    · exact .inl reset
    right
    obtain ⟨_, rfl⟩ := execute_claimPending occurs.taken
    obtain ⟨⟨_, pending', _⟩, _⟩ := execute_claimPending again.taken
    -- The store between the two claims is the one the first leaves behind.
    have executed := again.reached
    rw [run_append, occurs.reached] at executed
    simp only [Option.bind_some, run, occurs.taken] at executed
    have claimed := BackfillStore.mem_claimPending.mp member
    obtain ⟨stored, present, data⟩ := Option.map_eq_some_iff.mp claimed.2
    have spent : Spent row.key [] (store.claimPending selected).2 := by
      refine .inl ⟨stored.rowData, ?_⟩
      rw [BackfillStore.lookup_claimPending, ClaimedRow.key, present]
      simp [claimed.1]
    rcases spent.run reset executed with still | restaged
    · rw [same] at still
      exact absurd (pending' _ (BackfillStore.mem_claimPending.mp member').1)
        still.not_pending
    · exact restaged
  lasting := by
    intro before statement store next occurs key present absent
    exact removes_of_lookup occurs.taken present absent

example :
    (run execute {}
      [.insertRow "notes" "1" ∅, .insertRow "notes" "2" ∅,
        .claimPending 1 [("notes", "2")], .claimPending 200 [("notes", "1")],
        .insertRow "notes" "2" ∅, .claimPending 200 []]).isSome = true := by
  decide

end Backfill
end Walkrie
