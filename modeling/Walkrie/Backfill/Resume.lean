import Walkrie.Library.Transition
import Walkrie.Backfill.Converge

/-!
# Starting and resuming a dump

A source with backfill enabled is started again and again until streaming
starts.  What survives a process is the slot on the server and the store file;
whether the slot was created by the present process is known to that process
only.  A step is one statement of `connect()`,
`run_backfill_dump_if_required()` or `dump_all()`, and a process may stop
between any two of them.
-/

namespace Walkrie
namespace Backfill
namespace Resume

open Transition

/-- The statement a process executes next. -/
inductive Phase
  | stopped
  /-- `connect()`: connecting to the server. -/
  | connecting
  /-- `connect()`: creating the slot. -/
  | creating
  /-- `connect()`: opening the store. -/
  | opening
  /-- `connect()`: reading the tables of the publication. -/
  | filtering
  /-- `connect()`, fresh slot: the two statements of `reset`. -/
  | clearingRows
  | clearingTables
  /-- `connect()`, existing slot: `reset_stale_claims`. -/
  | unclaiming
  /-- `run_backfill_dump_if_required()`: deciding whether to dump. -/
  | connected
  /-- `dump_all()`: connecting to the server. -/
  | dumpConnecting
  /-- `dump_all()`: the loop over the mappings. -/
  | dumping (remaining : List TableMapping)
  /-- `dump_all()`: marking a table as started. -/
  | starting (tm : TableMapping) (remaining : List TableMapping)
  /-- `dump_all()`: querying the table. -/
  | scanning (tm : TableMapping) (remaining : List TableMapping)
  /-- `dump_all()`: staging the result rows, then marking the table as
  complete. -/
  | staging (tm : TableMapping) (rows : List (List (Option String)))
      (count : Nat) (remaining : List TableMapping)
  /-- The dump is done with, and streaming is requested. -/
  | ready
  | streaming

/-- The slot on the server, the store file, and the process. -/
structure State where
  slot : Bool := false
  store : BackfillStore
  phase : Phase := .stopped
  slotFreshlyCreated : Bool := false
  /-- Tables marked complete by a scan since the slot was created. -/
  scanned : List String := []

inductive Label
  /-- A new process calls `connect()`. -/
  | launch
  /-- The next statement succeeds. -/
  | proceed
  /-- The query of the dump returns these rows. -/
  | select (rows : List (List (Option String)))
  /-- The next statement fails. -/
  | fail
  /-- The process ends. -/
  | crash

/-- The mappings of the configuration and the tables of the publication. -/
structure Config where
  mappings : List TableMapping
  published : List String

/-- `filter_to_source_publication`. -/
def Config.scope (config : Config) : List TableMapping :=
  config.mappings.filter fun tm => config.published.contains tm.sourceTable

/-- The next statement succeeds.  Creating a slot that exists is refused by
the server, and the slot is then resumed. -/
def proceed (config : Config) (state : State) : Option State :=
  match state.phase with
  | .stopped | .scanning _ _ | .streaming => none
  | .connecting => some { state with phase := .creating }
  | .creating =>
      if state.slot then some { state with phase := .opening }
      else
        some { state with
          slot := true
          scanned := []
          slotFreshlyCreated := true
          phase := .opening }
  | .opening => some { state with phase := .filtering }
  | .filtering =>
      some { state with
        phase :=
          if state.slotFreshlyCreated then .clearingRows else .unclaiming }
  | .clearingRows =>
      some { state with
        store := state.store.deleteRows, phase := .clearingTables }
  | .clearingTables =>
      some { state with store := state.store.deleteTables, phase := .connected }
  | .unclaiming =>
      some { state with
        store := state.store.resetStaleClaims, phase := .connected }
  | .connected =>
      some { state with
        phase :=
          if !state.slotFreshlyCreated && !state.store.hasAnyDumpState then
            .ready
          else .dumpConnecting }
  | .dumpConnecting => some { state with phase := .dumping config.scope }
  | .dumping [] => some { state with phase := .ready }
  | .dumping (tm :: remaining) =>
      some { state with
        phase :=
          if state.store.isTableDumped tm.sourceTable then .dumping remaining
          else .starting tm remaining }
  | .starting tm remaining =>
      some { state with
        store := state.store.markTableDumpStarted tm.sourceTable
        phase := .scanning tm remaining }
  | .staging tm (fields :: rows) count remaining =>
      some { state with
        store := stageRow tm state.store fields
        phase := .staging tm rows count remaining }
  | .staging tm [] count remaining =>
      some { state with
        store := state.store.markTableDumped tm.sourceTable count
        scanned := tm.sourceTable :: state.scanned
        phase := .dumping remaining }
  | .ready =>
      if state.slot then some { state with phase := .streaming } else none

def step (config : Config) (state : State) : Label → Option State
  | .launch =>
      match state.phase with
      | .stopped =>
          some { state with phase := .connecting, slotFreshlyCreated := false }
      | _ => none
  | .proceed => proceed config state
  | .select rows =>
      match state.phase with
      | .scanning tm remaining =>
          some { state with phase := .staging tm rows rows.length remaining }
      | _ => none
  | .fail =>
      match state.phase with
      | .stopped => none
      -- `connect()` takes any failure to mean that the slot exists.
      | .creating => some { state with phase := .opening }
      | _ => some { state with phase := .stopped }
  | .crash => some { state with phase := .stopped }

/-! ## The dump of one table -/

theorem run_staging
    (config : Config)
    (state : State)
    (tm : TableMapping)
    (rows : List (List (Option String)))
    (count : Nat)
    (remaining : List TableMapping)
    (phase : state.phase = .staging tm rows count remaining) :
    run (step config) state (List.replicate rows.length .proceed) =
      some { state with
        store := rows.foldl (stageRow tm) state.store
        phase := .staging tm [] count remaining } := by
  induction rows generalizing state with
  | nil => simp [run, ← phase]
  | cons fields rows inductionHypothesis =>
      simp only [List.length_cons, List.replicate_succ, run, step, proceed,
        phase, List.foldl_cons]
      exact inductionHypothesis _ rfl

/-- Taken without a pause, the statements for one table are the body of the
loop of `dump_all`. -/
theorem run_dumpTable
    (config : Config)
    (state : State)
    (tm : TableMapping)
    (remaining : List TableMapping)
    (scan : Scan)
    (phase : state.phase = .dumping (tm :: remaining))
    (undumped : state.store.isTableDumped tm.sourceTable = false)
    (finished : scan.interrupted = none) :
    run (step config) state
        (.proceed :: .proceed ::
          .select (scan.result.map (SourceRow.fields tm)) ::
          (List.replicate scan.result.length .proceed ++ [.proceed])) =
      some { state with
        store := dumpTable tm state.store scan
        scanned := tm.sourceTable :: state.scanned
        phase := .dumping remaining } := by
  have staged := run_staging config
    { state with
      store := state.store.markTableDumpStarted tm.sourceTable
      phase := .staging tm (scan.result.map (SourceRow.fields tm))
        scan.result.length remaining }
    tm (scan.result.map (SourceRow.fields tm)) scan.result.length remaining rfl
  rw [List.length_map] at staged
  simp only [run, step, proceed, phase, undumped, Bool.false_eq_true, if_false,
    List.length_map, run_append, staged, Option.bind_some, dumpTable,
    finished, List.foldl_map]

/-- When streaming starts, every mapped table of the publication is marked
complete, by a scan that ran after the slot was created. -/
def DumpedSinceSlot (config : Config) (state : State) : Prop :=
  state.phase = .streaming → ∀ tm ∈ config.scope,
    state.store.isTableDumped tm.sourceTable = true ∧
      tm.sourceTable ∈ state.scanned

/-- The process has created the slot and not yet marked the first table as
started. -/
def Unmarked (state : State) : Prop :=
  state.slotFreshlyCreated = true ∧
    match state.phase with
    | .opening | .filtering | .clearingRows | .clearingTables | .connected
    | .dumpConnecting => True
    | .dumping _ | .starting _ _ => state.store.hasAnyDumpState = false
    | .stopped | .connecting | .creating | .unclaiming | .scanning _ _
    | .staging _ _ _ _ | .ready | .streaming => False

instance (state : State) : Decidable (Unmarked state) := by
  unfold Unmarked
  cases state.phase <;> infer_instance

/-- The process does not stop before the first table is marked as started. -/
def Uninterrupted (state : State) : Label → Prop
  | .fail | .crash => ¬Unmarked state
  | .launch | .proceed | .select _ => True

instance (state : State) (label : Label) :
    Decidable (Uninterrupted state label) := by
  cases label <;> dsimp only [Uninterrupted] <;> infer_instance

/-! ## What holds at each statement -/

/-- A later process can trust the store: it sees that a dump is under way, and
every complete mark is younger than the slot. -/
structure Trusted (store : BackfillStore) (scanned : List String) : Prop where
  started : store.hasAnyDumpState = true
  complete : ∀ sourceTable, store.isTableDumped sourceTable = true →
    sourceTable ∈ scanned

/-- Every table the loop has passed is complete. -/
def Covered (config : Config) (remaining : List TableMapping)
    (store : BackfillStore) : Prop :=
  ∀ tm ∈ config.scope,
    tm ∈ remaining ∨ store.isTableDumped tm.sourceTable = true

/-- The store can be trusted once there is a slot. -/
def State.Safe (state : State) : Prop :=
  state.slot = true → Trusted state.store state.scanned

/-- The process has created the slot and cleared the store, and marked nothing
yet. -/
def State.Cleared (state : State) : Prop :=
  state.slotFreshlyCreated = true ∧ state.store.hasAnyDumpState = false

/-- What is known before each statement.  A process that has created the slot
knows nothing of the store until it has cleared it. -/
def Fits (config : Config) (state : State) : Prop :=
  match state.phase with
  | .stopped | .connecting | .creating => state.Safe
  | .opening | .filtering => state.slotFreshlyCreated = true ∨ state.Safe
  | .clearingRows | .clearingTables => state.slotFreshlyCreated = true
  | .unclaiming => state.Safe
  | .connected | .dumpConnecting => state.Cleared ∨ state.Safe
  | .dumping remaining =>
      Covered config remaining state.store ∧
        (state.Cleared ∧ remaining = config.scope ∨ state.Safe)
  | .starting tm remaining =>
      Covered config (tm :: remaining) state.store ∧
        (state.Cleared ∨ state.Safe)
  | .scanning tm remaining | .staging tm _ _ remaining =>
      Covered config (tm :: remaining) state.store ∧ state.Safe
  | .ready =>
      state.Safe ∧ (state.slot = true → Covered config [] state.store)
  | .streaming =>
      Trusted state.store state.scanned ∧ Covered config [] state.store

variable {config : Config}
variable {state next : State}

/-- A process that may stop leaves a store that can be trusted. -/
theorem Fits.safe
    (fits : Fits config state)
    (marked : ¬Unmarked state) :
    state.Safe := by
  unfold Fits at fits
  unfold Unmarked at marked
  cases phase : state.phase <;> simp only [phase] at fits marked
  case stopped | connecting | creating | unclaiming => exact fits
  case opening | filtering =>
    exact fits.resolve_left fun fresh => marked ⟨fresh, trivial⟩
  case clearingRows | clearingTables =>
    exact absurd ⟨fits, trivial⟩ marked
  case connected | dumpConnecting =>
    exact fits.resolve_left fun cleared => marked ⟨cleared.1, trivial⟩
  case dumping =>
    exact fits.2.resolve_left fun cleared => marked cleared.1
  case starting => exact fits.2.resolve_left marked
  case scanning | staging => exact fits.2
  case ready => exact fits.1
  case streaming => exact fun _ => fits.1

/-! ## Statements on the store -/

section Statements

variable {store : BackfillStore}
variable {scanned : List String}

/-- Staging a row leaves the progress of the dump as it was. -/
theorem stageRow_tables
    (tm : TableMapping)
    (store : BackfillStore)
    (fields : List (Option String)) :
    (stageRow tm store fields).tables = store.tables := by
  unfold stageRow
  simp only
  split <;> rfl

/-- What is known of the dump depends on its progress only. -/
theorem Trusted.of_tables
    (trusted : Trusted store scanned)
    {other : BackfillStore}
    (tables : other.tables = store.tables) :
    Trusted other scanned := by
  obtain ⟨started, complete⟩ := trusted
  simp only [BackfillStore.hasAnyDumpState,
    BackfillStore.isTableDumped] at started complete
  refine ⟨?_, ?_⟩ <;>
    simp only [BackfillStore.hasAnyDumpState, BackfillStore.isTableDumped,
      tables]
  · exact started
  · exact complete

theorem Covered.of_tables
    {remaining : List TableMapping}
    (covered : Covered config remaining store)
    {other : BackfillStore}
    (tables : other.tables = store.tables) :
    Covered config remaining other := by
  simpa only [Covered, BackfillStore.isTableDumped, tables] using covered

/-- Once a table is marked as started the store can be trusted. -/
theorem trusted_markTableDumpStarted
    (before : store.hasAnyDumpState = false ∨ Trusted store scanned)
    (sourceTable : String) :
    Trusted (store.markTableDumpStarted sourceTable) scanned := by
  refine ⟨by simp, fun other dumped => ?_⟩
  rw [BackfillStore.isTableDumped_markTableDumpStarted] at dumped
  rcases before with empty | trusted
  · rw [BackfillStore.hasAnyDumpState_of_isTableDumped dumped] at empty
    cases empty
  · exact trusted.complete other dumped

theorem Trusted.markTableDumped
    (trusted : Trusted store scanned)
    (sourceTable : String)
    (count : Nat) :
    Trusted (store.markTableDumped sourceTable count)
      (sourceTable :: scanned) := by
  refine ⟨by simp, fun other dumped => ?_⟩
  rw [BackfillStore.isTableDumped_markTableDumped, Bool.or_eq_true,
    decide_eq_true_eq] at dumped
  rcases dumped with rfl | earlier
  · exact List.mem_cons_self
  · exact List.mem_cons_of_mem _ (trusted.complete other earlier)

/-- A complete table can be passed. -/
theorem Covered.pass
    {tm : TableMapping}
    {remaining : List TableMapping}
    (covered : Covered config (tm :: remaining) store)
    (dumped : store.isTableDumped tm.sourceTable = true) :
    Covered config remaining store := by
  intro other member
  rcases covered other member with ahead | complete
  · rcases List.mem_cons.mp ahead with rfl | later
    · exact .inr dumped
    · exact .inl later
  · exact .inr complete

/-- A table marked as complete is passed. -/
theorem Covered.markTableDumped
    {tm : TableMapping}
    {remaining : List TableMapping}
    (covered : Covered config (tm :: remaining) store)
    (count : Nat) :
    Covered config remaining (store.markTableDumped tm.sourceTable count) := by
  have marked : Covered config (tm :: remaining)
      (store.markTableDumped tm.sourceTable count) := by
    intro other member
    refine (covered other member).imp_right fun dumped => ?_
    simp [BackfillStore.isTableDumped_markTableDumped, dumped]
  exact marked.pass (by simp [BackfillStore.isTableDumped_markTableDumped])

end Statements

/-! ## Whole runs -/

theorem proceed_fits
    (mapped : config.scope ≠ [])
    (fits : Fits config state)
    (taken : proceed config state = some next) :
    Fits config next := by
  unfold Fits at fits
  unfold proceed at taken
  cases phase : state.phase <;> simp only [phase] at fits taken
  case stopped | scanning | streaming => cases taken
  case connecting =>
    cases taken
    exact fits
  case creating =>
    split at taken <;> cases taken
    · exact .inr fits
    · exact .inl rfl
  case opening =>
    cases taken
    exact fits
  case filtering =>
    cases taken
    by_cases fresh : state.slotFreshlyCreated = true
    · rw [if_pos fresh]
      exact fresh
    · rw [if_neg fresh]
      exact fits.resolve_left fresh
  case clearingRows =>
    cases taken
    exact fits
  case clearingTables =>
    cases taken
    exact .inl ⟨fits, rfl⟩
  case unclaiming =>
    cases taken
    exact .inr fun slot => (fits slot).of_tables rfl
  case connected =>
    cases taken
    split <;> rename_i skipped
    · -- Without dump state there is no slot, or the store would be trusted.
      rw [Bool.and_eq_true, Bool.not_eq_true', Bool.not_eq_true'] at skipped
      have safe : state.Safe := fits.resolve_left fun cleared => by
        rw [cleared.1] at skipped
        cases skipped.1
      refine ⟨safe, fun slot => ?_⟩
      rw [(safe slot).started] at skipped
      cases skipped.2
    · exact fits
  case dumpConnecting =>
    cases taken
    exact ⟨fun tm member => .inl member, fits.imp_left fun c => ⟨c, rfl⟩⟩
  case dumping remaining =>
    obtain ⟨covered, known⟩ := fits
    cases remaining with
    | nil =>
        cases taken
        exact ⟨known.resolve_left fun cleared => mapped cleared.2.symm,
          fun _ => covered⟩
    | cons tm remaining =>
        cases taken
        split <;> rename_i dumped
        · have safe : state.Safe := known.resolve_left fun cleared => by
            have empty := cleared.1.2
            rw [BackfillStore.hasAnyDumpState_of_isTableDumped dumped] at empty
            cases empty
          exact ⟨covered.pass dumped, .inr safe⟩
        · exact ⟨covered, known.imp_left And.left⟩
  case starting tm remaining =>
    cases taken
    refine ⟨?_, fun slot => trusted_markTableDumpStarted
      (fits.2.imp And.right (· slot)) tm.sourceTable⟩
    simpa [Covered] using fits.1
  case staging tm rows count remaining =>
    obtain ⟨covered, safe⟩ := fits
    cases rows with
    | nil =>
        cases taken
        exact ⟨covered.markTableDumped count,
          .inr fun slot => (safe slot).markTableDumped tm.sourceTable count⟩
    | cons fields rows =>
        cases taken
        have tables := stageRow_tables tm state.store fields
        exact ⟨covered.of_tables tables,
          fun slot => (safe slot).of_tables tables⟩
  case ready =>
    split at taken <;> rename_i slot <;> cases taken
    exact ⟨fits.1 slot, fits.2 slot⟩

theorem step_fits
    (mapped : config.scope ≠ [])
    {label : Label}
    (fits : Fits config state)
    (uninterrupted : Uninterrupted state label)
    (taken : step config state label = some next) :
    Fits config next := by
  cases label with
  | launch =>
      simp only [step] at taken
      cases phase : state.phase <;> simp only [phase] at taken
      case stopped =>
        cases taken
        simp only [Fits, phase] at fits
        exact fits
      all_goals cases taken
  | proceed => exact proceed_fits mapped fits taken
  | select rows =>
      simp only [step] at taken
      cases phase : state.phase <;> simp only [phase] at taken
      case scanning =>
        cases taken
        simp only [Fits, phase] at fits
        exact fits
      all_goals cases taken
  | fail =>
      have safe := fits.safe uninterrupted
      simp only [step] at taken
      cases phase : state.phase <;> simp only [phase] at taken
      case stopped => cases taken
      case creating =>
        cases taken
        exact .inr safe
      all_goals
        cases taken
        exact safe
  | crash =>
      cases taken
      exact fits.safe uninterrupted

/-- No run skips the dump, provided the run that creates the slot does not stop
before it has marked its first table as started. -/
theorem dumpedSinceSlot_of_reachable
    (config : Config)
    (store : BackfillStore)
    (state : State)
    (reachable : Reachable (step config) Uninterrupted { store } state) :
    DumpedSinceSlot config state := by
  intro streaming tm member
  have mapped : config.scope ≠ [] := List.ne_nil_of_mem member
  have fits : Fits config state :=
    reachable.invariant (Fits config) (fun slot => by cases slot)
      fun _ _ _ before uninterrupted taken =>
        step_fits mapped before uninterrupted taken
  simp only [Fits, streaming] at fits
  have complete := (fits.2 tm member).resolve_left List.not_mem_nil
  exact ⟨complete, fits.1.complete _ complete⟩

/-! ## A source with one table of notes -/

def notesConfig : Config :=
  { mappings := [notes], published := ["notes"] }

/-- A store left over from an earlier slot. -/
def staleStore : BackfillStore :=
  BackfillStore.markTableDumped {} "notes" 3

def State.isStreaming (state : State) : Bool :=
  match state.phase with
  | .streaming => true
  | _ => false

theorem streaming_of_isStreaming
    {state : State}
    (streaming : state.isStreaming = true) :
    state.phase = .streaming := by
  unfold State.isStreaming at streaming
  split at streaming
  · assumption
  · cases streaming

/-- The first process crashes in the query of the dump, and the second one
finishes the dump, in spite of the leftover mark. -/
theorem dumpedSinceSlot_resumedRun :
    ∃ state, Reachable (step notesConfig) Uninterrupted
        { store := staleStore } state ∧
      state.phase = .streaming ∧
      state.store.isTableDumped "notes" = true ∧ "notes" ∈ state.scanned := by
  obtain ⟨state, reachable, passed⟩ := exists_reachable_of_guarded
    Uninterrupted
    (Label.launch :: List.replicate 10 Label.proceed ++
      Label.crash :: Label.launch :: List.replicate 9 Label.proceed ++
      Label.select [[some "1", some "old"]] ::
        List.replicate 4 Label.proceed)
    (show (run (guarded (step notesConfig) Uninterrupted)
      { store := staleStore } _).any State.isStreaming = true by decide)
  have streaming := streaming_of_isStreaming passed
  exact ⟨state, reachable, streaming,
    dumpedSinceSlot_of_reachable notesConfig staleStore state reachable
      streaming notes (by decide)⟩

/-- The first process crashes right after creating the slot, and the second
one starts streaming without a dump. -/
theorem not_dumpedSinceSlot_skippedRun :
    ∃ state, Reachable (step notesConfig) (fun _ _ => True) { store := {} }
        state ∧
      ¬DumpedSinceSlot notesConfig state := by
  obtain ⟨state, reachable, passed⟩ := exists_reachable_of_run
    (fun _ _ => True)
    (Label.launch :: List.replicate 2 Label.proceed ++
      Label.crash :: Label.launch :: List.replicate 7 Label.proceed)
    (fun _ _ _ => trivial)
    (show (run (step notesConfig) { store := {} } _).any (fun state =>
      state.isStreaming && !state.store.isTableDumped "notes") = true
        by decide)
  simp only [Bool.and_eq_true, Bool.not_eq_true'] at passed
  obtain ⟨streaming, undumped⟩ := passed
  refine ⟨state, reachable, fun dumped => ?_⟩
  have complete := dumped (streaming_of_isStreaming streaming) notes
    (by decide)
  rw [show notes.sourceTable = "notes" from rfl, undumped] at complete
  cases complete.1

end Resume
end Backfill
end Walkrie
