import Walkrie.Backfill.Converge

/-!
# When a row cannot be written

The store keeps each row as the text `dump()` gives for it, and `dump()`
throws on a string that is not UTF-8.  In the dump the exception ends the
attempt.  While events are replayed it is caught together with the errors of
the decoder, and the event is lost.  Nothing is thrown when all texts are
UTF-8: the dump and the replay are then those of a store that takes every row,
and the sink ends with the text every source row has.
-/

namespace Walkrie
namespace Backfill
namespace Serialize

open Sink

/-! ## The dump and the replay -/

section Runs

variable (writes : RowData → Bool)
variable (tm : TableMapping)

/-- The loop over the result rows of a table: the store afterwards, and
whether the loop has come to its end. -/
def stageRows (store : BackfillStore) : List SourceRow → BackfillStore × Bool
  | [] => (store, true)
  | row :: rows =>
      match stageRow? writes tm store (row.fields tm) with
      | none => (store, false)
      | some store => stageRows store rows

/-- The body of the loop of `dump_all` for one table: the store afterwards,
and whether `dump_all` goes on. -/
def dumpTable (store : BackfillStore) (scan : Scan) : BackfillStore × Bool :=
  if store.isTableDumped tm.sourceTable then (store, true)
  else
    let started := store.markTableDumpStarted tm.sourceTable
    match scan.interrupted with
    | some count => ((stageRows writes tm started (scan.result.take count)).1,
        false)
    | none =>
        let (staged, whole) := stageRows writes tm started scan.result
        if whole then
          (staged.markTableDumped tm.sourceTable scan.result.length, true)
        else (staged, false)

/-- All attempts, the first on an empty store. -/
def dump (scans : List Scan) : BackfillStore :=
  scans.foldl (fun store scan => (dumpTable writes tm store scan).1) {}

/-- An event of the stream.  When it cannot be merged,
`drain_available_messages` reports an error and goes on. -/
def handleEvent (state : Replay) (event : ChangeEvent) : Replay :=
  match absorbEvent? writes [tm] state.store event with
  | none => state
  | some (store, absorbed) =>
      { store
        sink :=
          if absorbed then state.sink
          else state.sink.performAll (plan [tm] [event]) }

def replayStep (state : Replay) : ReplayStep → Replay
  | .live event => handleEvent writes tm state event
  | .drain rowId => drainRow tm state rowId

def replay (state : Replay) (schedule : List ReplayStep) : Replay :=
  schedule.foldl (replayStep writes tm) state

end Runs

/-! ## Rows of UTF-8 texts -/

/-- The names and texts of the table that reach the store are UTF-8. -/
structure Utf8 (tm : TableMapping) (scans : List Scan)
    (history : List ChangeEvent) : Prop where
  names : ∀ name ∈ selectColumns tm, ValidUtf8 name
  rows : ∀ scan ∈ scans, ∀ row ∈ scan.result, ∀ name ∈ selectColumns tm,
    ∀ text ∈ row name, ValidUtf8 text
  tuples : ∀ event ∈ history, ∀ tuple ∈ event.newRow,
    ∀ name ∈ selectColumns tm, ∀ value ∈ tuple.known? name,
      ∀ text ∈ value, ValidUtf8 text

/-- All staged rows consist of UTF-8 texts. -/
def Utf8Rows (store : BackfillStore) : Prop :=
  ∀ key row, store.rows.lookup key = some row → row.rowData.IsUtf8

section Objects

variable {tm : TableMapping}

theorem isUtf8_dumpRow
    {row : SourceRow}
    (names : ∀ name ∈ selectColumns tm, ValidUtf8 name)
    (texts : ∀ name ∈ selectColumns tm, ∀ text ∈ row name, ValidUtf8 text) :
    (dumpRow tm (row.fields tm)).2.IsUtf8 := by
  intro name value shown
  have column :=
    (foldl_dumpField tm row (selectColumns tm) ("", ∅)).2 name
  rw [show (((selectColumns tm).zip ((selectColumns tm).map row)).foldl
    (dumpField tm) ("", ∅)) = dumpRow tm (row.fields tm) from rfl, shown]
    at column
  split at column <;> rename_i selected
  · cases column
    exact ⟨names name selected, texts name selected⟩
  · cases column

theorem isUtf8_mergeKnownColumns
    {existing : RowData}
    {tuple : DecodedRow}
    (names : ∀ name ∈ selectColumns tm, ValidUtf8 name)
    (texts : ∀ name ∈ selectColumns tm, ∀ value ∈ tuple.known? name,
      ∀ text ∈ value, ValidUtf8 text)
    (utf8 : existing.IsUtf8) :
    (mergeKnownColumns existing tuple tm).IsUtf8 := by
  intro name value shown
  rw [lookup_mergeKnownColumns] at shown
  split at shown <;> rename_i selected
  · cases known : tuple.known? name with
    | none =>
        rw [known, Option.none_or] at shown
        exact utf8 name value shown
    | some sent =>
        rw [known, Option.some_or] at shown
        cases shown
        exact ⟨names name selected, texts name selected _ known⟩
  · exact utf8 name value shown

end Objects

/-! ## Nothing is thrown -/

section Refines

variable {writes : RowData → Bool}
variable {tm : TableMapping}
variable {store : BackfillStore}

/-- When every row can be staged, the loop stages them all. -/
theorem stageRows_of_written
    {rows : List SourceRow}
    (written : ∀ row ∈ rows, writes (dumpRow tm (row.fields tm)).2 = true) :
    stageRows writes tm store rows =
      (rows.foldl (fun store row => stageRow tm store (row.fields tm)) store,
        true) := by
  induction rows generalizing store with
  | nil => rfl
  | cons row rows inductionHypothesis =>
      rw [List.forall_mem_cons] at written
      rw [stageRows, stageRow?_eq, if_pos (.inr written.1)]
      exact inductionHypothesis written.2

theorem dumpTable_of_written
    {scan : Scan}
    (written : ∀ row ∈ scan.result,
      writes (dumpRow tm (row.fields tm)).2 = true) :
    (dumpTable writes tm store scan).1 = Backfill.dumpTable tm store scan := by
  unfold dumpTable Backfill.dumpTable
  split
  · rfl
  · cases scan.interrupted with
    | some count =>
        simp only
        rw [stageRows_of_written fun row member =>
          written row (List.mem_of_mem_take member)]
    | none => simp [stageRows_of_written written]

theorem dump_of_written
    {scans : List Scan}
    (written : ∀ scan ∈ scans, ∀ row ∈ scan.result,
      writes (dumpRow tm (row.fields tm)).2 = true) :
    dump writes tm scans = Backfill.dump tm scans :=
  List.foldl_ext _ _ _ fun _ scan member =>
    dumpTable_of_written (written scan member)

theorem handleEvent_of_written
    {state : Replay}
    {event : ChangeEvent}
    (written : ∀ object ∈ merged? [tm] state.store event,
      writes object = true) :
    handleEvent writes tm state event =
      Backfill.handleEvent tm state event := by
  unfold handleEvent
  rw [absorbEvent?_eq, if_pos ((Option.all_eq_true _ _).mpr written)]
  rfl

end Refines

/-! ## Texts stay UTF-8 -/

section Utf8

variable {tm : TableMapping}
variable {store : BackfillStore}

theorem Utf8Rows.stageRow
    {row : SourceRow}
    (utf8 : Utf8Rows store)
    (written : (dumpRow tm (row.fields tm)).2.IsUtf8) :
    Utf8Rows (stageRow tm store (row.fields tm)) := by
  unfold Backfill.stageRow
  simp only
  split
  · exact utf8
  · intro key found present
    rw [BackfillStore.lookup_insertRow] at present
    split at present
    · cases before : store.rows.lookup
          (tm.sourceTable, (dumpRow tm (row.fields tm)).1) with
      | none =>
          rw [before] at present
          cases present
          exact written
      | some existing =>
          rw [before] at present
          cases present
          exact utf8 _ _ before
    · exact utf8 key found present

theorem Utf8Rows.dump
    {scans : List Scan}
    (written : ∀ scan ∈ scans, ∀ row ∈ scan.result,
      (dumpRow tm (row.fields tm)).2.IsUtf8) :
    Utf8Rows (Backfill.dump tm scans) := by
  have rows : ∀ (rows : List SourceRow) (store : BackfillStore),
      (∀ row ∈ rows, (dumpRow tm (row.fields tm)).2.IsUtf8) →
      Utf8Rows store →
      Utf8Rows (rows.foldl
        (fun store row => Backfill.stageRow tm store (row.fields tm))
        store) := by
    intro rows store written utf8
    exact List.foldlRecOn rows _ utf8 fun _ utf8 row member =>
      utf8.stageRow (written row member)
  unfold Backfill.dump
  refine List.foldlRecOn scans _ ?_ fun store utf8 scan member => ?_
  · intro key row present
    cases present
  · unfold Backfill.dumpTable
    split
    · exact utf8
    · cases scan.interrupted with
      | some count =>
          exact rows _ _ (fun row among =>
            written scan member row (List.mem_of_mem_take among)) utf8
      | none => exact rows _ _ (written scan member) utf8

/-- The object an event is merged into is UTF-8 if the staged row and the
event are. -/
theorem Utf8Rows.merged
    {event : ChangeEvent}
    (utf8 : Utf8Rows store)
    (names : ∀ name ∈ selectColumns tm, ValidUtf8 name)
    (tuples : ∀ tuple ∈ event.newRow, ∀ name ∈ selectColumns tm,
      ∀ value ∈ tuple.known? name, ∀ text ∈ value, ValidUtf8 text) :
    ∀ object ∈ merged? [tm] store event, object.IsUtf8 := by
  intro object built
  have explained := absorption_explains [tm] event
  unfold merged? at built
  cases kind : absorption [tm] event with
  | unrelated => simp [kind] at built
  | removes mapped gone => simp [kind] at built
  | merges mapped merged newRow =>
      rw [kind] at explained built
      obtain ⟨found, _, _, _, new⟩ := explained
      cases findMapping_singleton found
      obtain ⟨existing, staged, rfl⟩ := Option.map_eq_some_iff.mp built
      obtain ⟨row, present, rfl⟩ := Option.map_eq_some_iff.mp staged
      exact isUtf8_mergeKnownColumns names (tuples newRow new)
        (utf8 _ row present)

theorem Utf8Rows.absorbEvent
    {event : ChangeEvent}
    (utf8 : Utf8Rows store)
    (merged : ∀ object ∈ merged? [tm] store event, object.IsUtf8) :
    Utf8Rows (absorbEvent [tm] store event).1 := by
  unfold Backfill.absorbEvent
  unfold merged? at merged
  cases kind : absorption [tm] event with
  | unrelated => exact utf8
  | removes mapped gone =>
      intro key row present
      simp only [BackfillStore.lookup_markDone] at present
      split at present
      · cases present
      · exact utf8 key row present
  | merges mapped id newRow =>
      simp only
      cases existing : store.getRowData mapped.sourceTable id with
      | none => exact utf8
      | some rowData =>
          simp only [kind, existing, Option.map_some, Option.mem_some_iff,
            forall_eq'] at merged
          intro key row present
          rw [BackfillStore.lookup_updateRowData] at present
          split at present
          · obtain ⟨before, _, rfl⟩ := Option.map_eq_some_iff.mp present
            exact merged
          · exact utf8 key row present

theorem Utf8Rows.drainRow
    {state : Replay}
    (utf8 : Utf8Rows state.store)
    (rowId : String) :
    Utf8Rows (drainRow tm state rowId).store := by
  unfold Backfill.drainRow
  split
  · refine List.foldlRecOn _ _ ?_ fun store utf8 claimed _ => ?_
    · intro key row present
      rw [BackfillStore.lookup_claimPending] at present
      obtain ⟨before, there, rfl⟩ := Option.map_eq_some_iff.mp present
      have kept := utf8 key before there
      split <;> exact kept
    · intro key row present
      rw [BackfillStore.lookup_markDone] at present
      split at present
      · cases present
      · exact utf8 key row present
  · exact utf8

end Utf8

/-! ## Convergence -/

section Converge

variable {writes : RowData → Bool}
variable {tm : TableMapping}

/-- With UTF-8 texts the replay loses no event. -/
theorem replay_of_utf8
    (strict : DumpsUtf8 writes)
    (names : ∀ name ∈ selectColumns tm, ValidUtf8 name)
    {schedule : List ReplayStep}
    {state : Replay}
    (tuples : ∀ event ∈ schedule.filterMap ReplayStep.event?,
      ∀ tuple ∈ event.newRow, ∀ name ∈ selectColumns tm,
        ∀ value ∈ tuple.known? name, ∀ text ∈ value, ValidUtf8 text)
    (utf8 : Utf8Rows state.store) :
    replay writes tm state schedule = Backfill.replay tm state schedule := by
  induction schedule generalizing state with
  | nil => rfl
  | cons step schedule inductionHypothesis =>
      cases step with
      | live event =>
          simp only [List.filterMap_cons, ReplayStep.event?,
            List.forall_mem_cons] at tuples
          have merged := utf8.merged names tuples.1
          have kept : handleEvent writes tm state event =
              Backfill.handleEvent tm state event :=
            handleEvent_of_written fun object built =>
              (strict object).mpr (merged object built)
          have next : Utf8Rows (Backfill.handleEvent tm state event).store :=
            utf8.absorbEvent merged
          calc replay writes tm state (.live event :: schedule)
              = replay writes tm (Backfill.handleEvent tm state event)
                  schedule := by rw [← kept]; rfl
            _ = Backfill.replay tm state (.live event :: schedule) :=
                inductionHypothesis tuples.2 next
      | drain rowId =>
          exact inductionHypothesis tuples (utf8.drainRow rowId)

/-- With UTF-8 texts, whatever the dump read and wherever rows were drained,
the sink ends with the text of every source row. -/
theorem sink_drainRemaining_replay
    (strict : DumpsUtf8 writes)
    {initial : String → Option String}
    {history : List ChangeEvent}
    {scans : List Scan}
    {schedule : List ReplayStep}
    (unpinned : Unpinned tm initial history scans schedule)
    (utf8 : Utf8 tm scans history)
    (id : String) :
    (drainRemaining tm
        (replay writes tm
          { store := dump writes tm scans, sink := fun _ => none }
          schedule)).sink (tm.rowKey id) =
      history.foldl (textAfter tm id) (initial id) := by
  have objects : ∀ scan ∈ scans, ∀ row ∈ scan.result,
      (dumpRow tm (row.fields tm)).2.IsUtf8 := fun scan member row among =>
    isUtf8_dumpRow utf8.names (utf8.rows scan member row among)
  have dumped : dump writes tm scans = Backfill.dump tm scans :=
    dump_of_written fun scan member row among =>
      (strict _).mpr (objects scan member row among)
  rw [dumped, replay_of_utf8 strict utf8.names
    (by rw [unpinned.replayed]; exact utf8.tuples) (Utf8Rows.dump objects)]
  exact unpinned.sink_eq id

end Converge

/-! ## Notes with a text in another encoding -/

/-- Writes the objects of UTF-8 texts. -/
def utf8Only (data : RowData) : Bool :=
  data.entries.all fun entry =>
    decide (ValidUtf8 entry.1) && entry.2.all fun text =>
      decide (ValidUtf8 text)

theorem dumpsUtf8_utf8Only : DumpsUtf8 utf8Only := by
  intro data
  simp only [utf8Only, List.all_eq_true, Bool.and_eq_true, decide_eq_true_eq,
    Option.all_eq_true, RowData.IsUtf8]
  constructor
  · intro written name value shown
    exact written ⟨name, value⟩ (AList.mem_lookup_iff.mp shown)
  · intro utf8 entry member
    exact utf8 entry.1 entry.2 (AList.mem_lookup_iff.mpr member)

/-- At first there is one note, with body `old`. -/
def oldNote : String → Option String :=
  fun id => if id = "1" then some "old" else none

/-- There is no other note until an event is about one. -/
theorem only_oldNote
    {history : List ChangeEvent}
    (unrelated : ∀ id, id ≠ "1" → ∀ event ∈ history, ¬Concerns notes id event)
    {id text : String}
    (present : history.foldl (textAfter notes id) (oldNote id) = some text) :
    "1" = id := by
  by_contra different
  rw [foldl_textAfter_of_not_concerns (unrelated id (Ne.symm different)),
    oldNote, if_neg (Ne.symm different)] at present
  cases present

theorem filled_oldNote
    (id text : String)
    (present : oldNote id = some text) :
    id ≠ "" ∧ text ≠ "" := by
  unfold oldNote at present
  split at present <;> rename_i same
  · cases present
    subst same
    decide
  · cases present

/-- The note is updated before the second scan, and another note is inserted
after it. -/
def sampleHistory : List ChangeEvent :=
  [noteUpdate "1" "new", noteInsert "2" "other"]

/-- The first scan is interrupted before it stages anything. -/
def sampleScans : List Scan :=
  [{ point := 0, result := [noteRow "1" "old"], interrupted := some 0 },
    { point := 1, result := [noteRow "1" "new"] }]

def sampleSchedule : List ReplayStep :=
  [.live (noteUpdate "1" "new"), .drain "1", .live (noteInsert "2" "other")]

theorem unpinned_sample :
    Unpinned notes oldNote sampleHistory sampleScans sampleSchedule where
  filled := filled_oldNote
  truthful := by
    intro id
    refine ⟨fun about => ?_, fun about => ?_, trivial⟩
    · rw [← about.2]
      exact ⟨by decide, .inr (by decide), .inl (by decide)⟩
    · rw [← about.2]
      exact ⟨by decide, by decide, by decide⟩
  single := by decide
  read := by
    have first : ∀ point ≤ 1, ∀ id text,
        textAt notes oldNote sampleHistory point id = some text →
          "1" = id := by
      intro point early id text present
      refine only_oldNote (fun id different event member about => ?_) present
      have within := List.take_subset_take_left sampleHistory early member
      cases List.mem_singleton.mp within
      exact different about.2.symm
    simp only [sampleScans, List.forall_mem_cons, List.not_mem_nil,
      false_implies, implies_true, and_true]
    refine ⟨⟨?_, fun id text present => ?_⟩, ⟨?_, fun id text present => ?_⟩⟩
    · simpa using ⟨"1", "old", rfl, rfl, by decide⟩
    · exact ⟨_, List.mem_cons_self,
        congrArg some (first 0 (by decide) id text present)⟩
    · simpa using ⟨"1", "new", rfl, rfl, by decide⟩
    · exact ⟨_, List.mem_cons_self,
        congrArg some (first 1 (by decide) id text present)⟩
  finished := ⟨_, List.mem_cons_of_mem _ List.mem_cons_self, rfl⟩
  replayed := rfl

theorem utf8_sample : Utf8 notes sampleScans sampleHistory where
  names := by decide +kernel
  rows := by decide +kernel
  tuples := by decide +kernel

theorem sink_sampleSchedule :
    (drainRemaining notes
        (replay utf8Only notes
          { store := dump utf8Only notes sampleScans, sink := fun _ => none }
          sampleSchedule)).sink (notes.rowKey "1") = some "new" := by
  rw [sink_drainRemaining_replay dumpsUtf8_utf8Only unpinned_sample
    utf8_sample]
  decide

/-- The note is updated to a text in Latin-1 after it was staged. -/
def latin1Scans : List Scan :=
  [{ point := 0, result := [noteRow "1" "old"] }]

theorem unpinned_latin1 :
    Unpinned notes oldNote [noteUpdate "1" "\xe9"] latin1Scans
      [.live (noteUpdate "1" "\xe9")] where
  filled := filled_oldNote
  truthful := by
    intro id
    refine ⟨fun about => ?_, trivial⟩
    rw [← about.2]
    exact ⟨by decide, .inr (by decide), .inl (by decide)⟩
  single := by decide
  read := by
    simp only [latin1Scans, List.forall_mem_cons, List.not_mem_nil,
      false_implies, implies_true, and_true]
    refine ⟨?_, fun id text present => ⟨_, List.mem_cons_self, ?_⟩⟩
    · simpa using ⟨"1", "old", rfl, rfl, by decide⟩
    · exact congrArg some (only_oldNote (by simp) present)
  finished := ⟨_, List.mem_cons_self, rfl⟩
  replayed := rfl

/-- The update cannot be merged and is lost, and the note is drained as it was
staged. -/
theorem not_converges_latin1 :
    Unpinned notes oldNote [noteUpdate "1" "\xe9"] latin1Scans
        [.live (noteUpdate "1" "\xe9")] ∧
      ∀ writes, DumpsUtf8 writes →
        (drainRemaining notes
            (replay writes notes
              { store := dump writes notes latin1Scans
                sink := fun _ => none }
              [.live (noteUpdate "1" "\xe9")])).sink (notes.rowKey "1") =
          some "old" ∧
        [noteUpdate "1" "\xe9"].foldl (textAfter notes "1") (oldNote "1") =
          some "\xe9" := by
  refine ⟨unpinned_latin1, fun writes strict => ⟨?_, by decide⟩⟩
  have staged : dump writes notes latin1Scans =
      Backfill.dump notes latin1Scans := by
    refine dump_of_written fun scan member row among => (strict _).mpr ?_
    cases List.mem_singleton.mp member
    cases List.mem_singleton.mp among
    exact isUtf8_dumpRow (by decide +kernel) (by decide +kernel)
  have refused : ¬(merged? [notes] (Backfill.dump notes latin1Scans)
      (noteUpdate "1" "\xe9")).all writes = true := by
    intro written
    have utf8 := (strict _).mp ((Option.all_eq_true _ _).mp written _ rfl)
    exact absurd ((utf8 "body" (some "\xe9") rfl).2 "\xe9" rfl)
      (by decide +kernel)
  have lost : replay writes notes
      { store := Backfill.dump notes latin1Scans, sink := fun _ => none }
      [.live (noteUpdate "1" "\xe9")] =
        { store := Backfill.dump notes latin1Scans
          sink := fun _ => none } := by
    simp only [replay, List.foldl_cons, List.foldl_nil, replayStep,
      handleEvent, absorbEvent?_eq, if_neg refused]
  rw [staged, lost]
  decide

end Serialize
end Backfill
end Walkrie
