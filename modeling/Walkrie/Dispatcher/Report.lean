import Walkrie.Dispatcher.Confirm

/-!
# The position reported to the server

A source stores every position confirmed for it, whatever it stored before,
and `ping_update` reports the value stored last.  What is confirmed is the
maximum over one batch, so the stored value goes down when a batch holds only
early changes of a transaction that commits late.  It never does when every
batch reaches at least as far as everything taken from the queue before it.
-/

namespace Walkrie
namespace Dispatcher

variable {σ ρ : Type}
variable {settings : Settings}
variable {state next : State σ ρ} {label : Label σ ρ} {batch : Batch σ}
variable {caller : Caller} {source : SourceId}
variable {trace : List (Output σ ρ)}

/-- Positions confirmed for one source, in that order. -/
def reports (source : SourceId) (trace : List (Output σ ρ)) : List Nat :=
  trace.flatMap fun
    | .confirmed other lsn => if other = source then [lsn] else []
    | _ => []

/-- The values of `confirmed_lsn_`: the one `connect` parses from the start
position, then those of `set_confirmed_lsn`, which stores what it is given. -/
def storedLsns
    (start : SourceId → Nat)
    (source : SourceId)
    (trace : List (Output σ ρ)) : List Nat :=
  start source :: reports source trace

/-- The position `ping_update` reports. -/
def pingUpdate
    (start : SourceId → Nat)
    (source : SourceId)
    (trace : List (Output σ ρ)) : Nat :=
  (storedLsns start source trace).getLast (List.cons_ne_nil _ _)

@[simp] theorem reports_append
    (source : SourceId)
    (first second : List (Output σ ρ)) :
    reports source (first ++ second) =
      reports source first ++ reports source second := by
  simp [reports]

/-- Observations among which there is no confirmation. -/
def Quiet (outputs : List (Output σ ρ)) : Prop :=
  ∀ source lsn, Output.confirmed source lsn ∉ outputs

theorem Quiet.reports
    {outputs : List (Output σ ρ)}
    (quiet : Quiet outputs)
    (source : SourceId) :
    Dispatcher.reports source outputs = [] := by
  rw [Dispatcher.reports, List.flatMap_eq_nil_iff]
  intro output member
  cases output with
  | confirmed other lsn => exact absurd member (quiet other lsn)
  | _ => rfl

/-! ## The maximum of a batch -/

theorem raiseLsn_nodup
    (source : SourceId)
    (lsn : Nat)
    {lsns : List (SourceId × Nat)}
    (distinct : (lsns.map Prod.fst).Nodup) :
    ((raiseLsn source lsn lsns).map Prod.fst).Nodup := by
  induction lsns with
  | nil => simp [raiseLsn]
  | cons entry lsns inductionHypothesis =>
      rw [List.map_cons, List.nodup_cons] at distinct
      simp only [raiseLsn]
      split <;> rename_i same
      · rw [List.map_cons, List.nodup_cons, ← same]
        exact distinct
      · rw [List.map_cons, List.nodup_cons]
        refine ⟨fun member => ?_, inductionHypothesis distinct.2⟩
        obtain ⟨other, inside, key⟩ := List.mem_map.mp member
        rcases raiseLsn_mem inside with old | new
        · exact distinct.1 (List.mem_map.mpr ⟨other, old, key⟩)
        · exact same (by rw [← key, new])

/-- The entry of the raised source, and the entries that were there before,
are not below what they should be. -/
theorem raiseLsn_le
    (source : SourceId)
    (lsn : Nat)
    (lsns : List (SourceId × Nat)) :
    (∃ entry ∈ raiseLsn source lsn lsns, entry.1 = source ∧ lsn ≤ entry.2) ∧
      ∀ old ∈ lsns, ∃ entry ∈ raiseLsn source lsn lsns,
        entry.1 = old.1 ∧ old.2 ≤ entry.2 := by
  induction lsns with
  | nil => simp [raiseLsn]
  | cons head lsns inductionHypothesis =>
      obtain ⟨raised, kept⟩ := inductionHypothesis
      simp only [raiseLsn]
      split <;> rename_i same
      · refine ⟨⟨_, List.mem_cons_self, rfl, Nat.le_max_right _ _⟩, ?_⟩
        rw [List.forall_mem_cons]
        exact ⟨⟨_, List.mem_cons_self, same.symm, Nat.le_max_left _ _⟩,
          fun old member => ⟨old, List.mem_cons_of_mem _ member, rfl, le_rfl⟩⟩
      · obtain ⟨entry, member, found⟩ := raised
        refine ⟨⟨entry, List.mem_cons_of_mem _ member, found⟩, ?_⟩
        rw [List.forall_mem_cons]
        refine ⟨⟨head, List.mem_cons_self, rfl, le_rfl⟩, ?_⟩
        intro old inside
        obtain ⟨entry, member, found⟩ := kept old inside
        exact ⟨entry, List.mem_cons_of_mem _ member, found⟩

/-- A batch has one entry for each source, and it is the greatest position of
that source's events. -/
theorem Batch.maxLsn_spec (batch : Batch σ) :
    (batch.maxLsn.map Prod.fst).Nodup ∧
      ∀ entry ∈ batch.maxLsn, ∀ job ∈ batch.jobs,
        job.sourceId = entry.1 → job.ev.commitLsn ≤ entry.2 := by
  have general : ∀ (jobs : List (EventJob σ)) (lsns : List (SourceId × Nat)),
      (lsns.map Prod.fst).Nodup →
      ((jobs.foldl (fun lsns job =>
          raiseLsn job.sourceId job.ev.commitLsn lsns) lsns).map
            Prod.fst).Nodup ∧
        ∀ entry ∈ jobs.foldl (fun lsns job =>
            raiseLsn job.sourceId job.ev.commitLsn lsns) lsns,
          (∀ old ∈ lsns, old.1 = entry.1 → old.2 ≤ entry.2) ∧
            ∀ job ∈ jobs, job.sourceId = entry.1 →
              job.ev.commitLsn ≤ entry.2 := by
    intro jobs
    induction jobs with
    | nil =>
        intro lsns distinct
        refine ⟨distinct, fun entry member => ⟨?_, by simp⟩⟩
        intro old inside same
        exact (List.inj_on_of_nodup_map distinct inside member same ▸ le_rfl)
    | cons job jobs inductionHypothesis =>
        intro lsns distinct
        obtain ⟨nodup, above⟩ := inductionHypothesis _
          (raiseLsn_nodup job.sourceId job.ev.commitLsn distinct)
        obtain ⟨⟨new, newMember, newKey, newLe⟩, kept⟩ :=
          raiseLsn_le job.sourceId job.ev.commitLsn lsns
        refine ⟨nodup, fun entry member => ⟨?_, ?_⟩⟩
        · intro old inside same
          obtain ⟨later, laterMember, laterKey, laterLe⟩ := kept old inside
          exact Nat.le_trans laterLe
            ((above entry member).1 later laterMember (laterKey.trans same))
        · rw [List.forall_mem_cons]
          refine ⟨fun same => ?_, (above entry member).2⟩
          exact Nat.le_trans newLe
            ((above entry member).1 new newMember (newKey.trans same))
  obtain ⟨nodup, above⟩ := general batch.jobs [] List.nodup_nil
  exact ⟨nodup, fun entry member => (above entry member).2⟩

/-! ## Where reported positions come from -/

/-- Every position reported for the source is that of one of its first jobs
taken from the queue. -/
def ReportedBy
    (source : SourceId)
    (bound : Nat)
    (trace : List (Output σ ρ)) : Prop :=
  ∀ lsn ∈ reports source trace, ∃ job ∈ (dequeued trace).take bound,
    job.sourceId = source ∧ job.ev.commitLsn = lsn

theorem ReportedBy.append
    {bound : Nat}
    {outputs : List (Output σ ρ)}
    (reported : ReportedBy source bound trace)
    (quiet : reports source outputs = []) :
    ReportedBy source bound (trace ++ outputs) := by
  intro lsn member
  rw [reports_append, quiet, List.append_nil] at member
  obtain ⟨job, inside, found⟩ := reported lsn member
  refine ⟨job, ?_, found⟩
  rw [dequeued_append, List.take_append]
  exact List.mem_append_left _ inside

theorem ReportedBy.all
    {bound : Nat}
    (reported : ReportedBy source bound trace) :
    ReportedBy source (dequeued trace).length trace := by
  intro lsn member
  obtain ⟨job, inside, found⟩ := reported lsn member
  rw [List.take_length]
  exact ⟨job, List.mem_of_mem_take inside, found⟩

/-- Reports come from jobs that were taken from the queue. -/
def Traced (trace : List (Output σ ρ)) : Prop :=
  ∀ source, ReportedBy source (dequeued trace).length trace

theorem Traced.append
    {outputs : List (Output σ ρ)}
    (traced : Traced trace)
    (quiet : Quiet outputs) :
    Traced (trace ++ outputs) :=
  fun source => ((traced source).append (quiet.reports source)).all

/-- The jobs of a batch were taken from the queue, and reports come from jobs
before it. -/
def Opened (batch : Batch σ) (trace : List (Output σ ρ)) : Prop :=
  batch.jobs ⊆ dequeued trace ∧
    ∀ source, ReportedBy source batch.first trace

theorem Opened.append
    {outputs : List (Output σ ρ)}
    (opened : Opened batch trace)
    (quiet : Quiet outputs) :
    Opened batch (trace ++ outputs) := by
  refine ⟨fun job member => ?_, fun source =>
    (opened.2 source).append (quiet.reports source)⟩
  rw [dequeued_append]
  exact List.mem_append_left _ (opened.1 member)

theorem Opened.traced (opened : Opened batch trace) : Traced trace :=
  fun source => (opened.2 source).all

/-- Reports come from jobs that were taken from the queue, and those about a
source that an open batch still has to report from jobs before that batch. -/
def Reported (state : State σ ρ) : Prop :=
  Traced state.trace ∧
    match state.phase with
    | .collecting batch _ | .draining batch | .dispatching _ batch _ _ =>
        Opened batch state.trace
    | .notifying _ batch pending =>
        batch.jobs ⊆ dequeued state.trace ∧
          (pending.map Prod.fst).Nodup ∧ pending ⊆ batch.maxLsn ∧
          ∀ entry ∈ pending, ReportedBy entry.1 batch.first state.trace
    | .loopHead | .waiting | .exited => True

/-- A longer trace without confirmations, at the same program position. -/
theorem Reported.extend
    (reported : Reported state)
    {outputs : List (Output σ ρ)}
    (quiet : Quiet outputs)
    (phase : next.phase = state.phase)
    (trace : next.trace = state.trace ++ outputs) :
    Reported next := by
  obtain ⟨traced, reported⟩ := reported
  refine ⟨trace ▸ traced.append quiet, ?_⟩
  rw [phase, trace]
  split
  · rename_i position
    simp only [position] at reported
    exact reported.append quiet
  · rename_i position
    simp only [position] at reported
    exact reported.append quiet
  · rename_i position
    simp only [position] at reported
    exact reported.append quiet
  · rename_i position
    simp only [position] at reported
    obtain ⟨inside, distinct, subset, pending⟩ := reported
    refine ⟨fun job member => ?_, distinct, subset, fun entry member =>
      (pending entry member).append (quiet.reports entry.1)⟩
    rw [dequeued_append]
    exact List.mem_append_left _ (inside member)
  · trivial
  · trivial
  · trivial

/-! ## The statements of the thread -/

theorem opened_newBatch
    (traced : Traced state.trace)
    (sinks : List (SinkHandle σ)) :
    Opened (state.newBatch sinks) state.trace :=
  ⟨List.nil_subset _, traced⟩

/-- A job taken from the queue joins the batch. -/
theorem Opened.push
    (opened : Opened batch trace)
    (job : EventJob σ) :
    Opened (batch.push job) (trace ++ [.dequeued job]) := by
  have longer : Opened batch (trace ++ [.dequeued job]) :=
    opened.append (by simp [Quiet])
  refine ⟨?_, longer.2⟩
  simp only [Batch.push, List.append_subset]
  exact ⟨longer.1, by simp⟩

theorem resume_reported (traced : Traced state.trace) :
    Reported (state.resume caller batch) := by
  cases caller with
  | processJobs => exact ⟨traced, trivial⟩
  | drainLoop => exact ⟨traced, opened_newBatch traced _⟩
  | drainEnd => exact ⟨traced, trivial⟩

theorem leaveLoop_reported (traced : Traced state.trace) :
    Reported state.leaveLoop := by
  refine ⟨traced, ?_⟩
  unfold State.leaveLoop
  cases state.fatalTriggered with
  | true => trivial
  | false => exact opened_newBatch traced []

theorem notifyConfirmed_reported (opened : Opened batch state.trace) :
    Reported (state.notifyConfirmed settings caller batch) := by
  unfold State.notifyConfirmed
  split
  · exact resume_reported opened.traced
  · exact ⟨opened.traced, opened.1, batch.maxLsn_spec.1, List.Subset.refl _,
      fun entry _ => opened.2 entry.1⟩

theorem nextSink_reported
    {position : Nat}
    (opened : Opened batch state.trace) :
    Reported (state.nextSink settings caller batch position) := by
  unfold State.nextSink
  split
  · exact ⟨opened.traced, opened⟩
  · exact notifyConfirmed_reported opened

theorem dispatch_reported (opened : Opened batch state.trace) :
    Reported (state.dispatch settings caller batch) := by
  unfold State.dispatch
  exact nextSink_reported (opened.append (by simp [Quiet]))

theorem dispatchFailed_reported (traced : Traced state.trace) :
    Reported (state.dispatchFailed settings caller) := by
  let failed : State σ ρ :=
    if !state.fatalTriggered && settings.onFatal then
      { state.emit [.fatal] with fatalTriggered := true }
    else state
  have longer : Traced failed.trace := by
    dsimp only [failed]
    split
    · exact traced.append (by simp [Quiet])
    · exact traced
  cases caller with
  | processJobs => exact leaveLoop_reported longer
  | drainLoop => exact ⟨longer, trivial⟩
  | drainEnd => exact ⟨longer, trivial⟩

/-- The callback reports a position of the batch. -/
theorem Traced.confirm
    (traced : Traced trace)
    {entry : SourceId × Nat}
    (inside : batch.jobs ⊆ dequeued trace)
    (member : entry ∈ batch.maxLsn) :
    Traced (trace ++ [.confirmed entry.1 entry.2]) := by
  obtain ⟨job, inBatch, own⟩ := Batch.exists_job_of_maxLsn member
  intro other lsn report
  rw [List.take_length, dequeued_append]
  rw [reports_append, List.mem_append] at report
  rcases report with old | new
  · obtain ⟨job, present, found⟩ := traced other lsn old
    exact ⟨job, List.mem_append_left _ (List.mem_of_mem_take present), found⟩
  · simp only [reports, List.flatMap_singleton] at new
    split at new
    · rename_i same
      rw [List.mem_singleton.mp new, ← same, own]
      exact ⟨job, List.mem_append_left _ (inside inBatch), rfl, rfl⟩
    · cases new

/-- Confirming a source leaves the reports about the others alone. -/
theorem ReportedBy.confirm
    {bound : Nat}
    {pending : List (SourceId × Nat)}
    {entry other : SourceId × Nat}
    (distinct : (pending.map Prod.fst).Nodup)
    (member : entry ∈ pending)
    (remaining : other ∈ pending.erase entry)
    (reported : ReportedBy other.1 bound trace) :
    ReportedBy other.1 bound (trace ++ [.confirmed entry.1 entry.2]) := by
  obtain ⟨different, present⟩ :=
    (List.Nodup.of_map _ distinct).mem_erase_iff.mp remaining
  have keys : entry.1 ≠ other.1 := fun same =>
    different (List.inj_on_of_nodup_map distinct present member same.symm)
  exact reported.append (by simp [reports, keys])

theorem step_reported
    (reported : Reported state)
    (taken : step settings state label = some next) :
    Reported next := by
  obtain ⟨traced, here⟩ := reported
  cases moves_of_step taken with
  | post job running =>
      exact Reported.extend ⟨traced, here⟩ (by simp [Quiet]) rfl rfl
  | stop => exact ⟨traced, here⟩
  | keepRunning phase => exact ⟨traced, trivial⟩
  | leaveLoop phase stopped => exact leaveLoop_reported traced
  | timeOut now phase => exact ⟨traced, trivial⟩
  | openBatch now job rest phase queue =>
      have opened := (opened_newBatch traced job.sinks).push job
      exact ⟨opened.traced, opened⟩
  | fillBatch now batch deadline job rest phase room queue =>
      rw [phase] at here
      exact ⟨(Opened.push here job).traced, Opened.push here job⟩
  | closeBatch now arrived batch deadline phase =>
      rw [phase] at here
      exact dispatch_reported here
  | complete outcome caller batch position backoff handle phase present =>
      rw [phase] at here
      apply nextSink_reported
      simp only [emit_trace, List.append_assoc]
      exact Opened.append here (by simp [Quiet])
  | retry outcome caller batch position backoff later handle phase present =>
      rw [phase] at here
      have longer := Opened.append here
        (show Quiet [.called position batch outcome] by simp [Quiet])
      exact ⟨longer.traced, longer⟩
  | giveUp =>
      apply dispatchFailed_reported
      simp only [emit_trace, List.append_assoc]
      exact traced.append (by simp [Quiet])
  | confirmLast caller batch pending entry phase member =>
      rw [phase] at here
      obtain ⟨inside, _, subset, _⟩ := here
      exact resume_reported (traced.confirm inside (subset member))
  | confirm caller batch pending entry phase member =>
      rw [phase] at here
      obtain ⟨inside, distinct, subset, earlier⟩ := here
      refine ⟨traced.confirm inside (subset member), ?_⟩
      simp only [emit_trace, dequeued_append]
      refine ⟨List.subset_append_of_subset_left _ inside, distinct.sublist
        (List.erase_sublist.map _), fun other remaining =>
          subset (List.mem_of_mem_erase remaining), ?_⟩
      intro other remaining
      exact (earlier other (List.mem_of_mem_erase remaining)).confirm
        distinct member remaining
  | drain batch job rest phase queue room =>
      rw [phase] at here
      exact ⟨(Opened.push here job).traced, Opened.push here job⟩
  | drainFull batch job rest phase queue full =>
      rw [phase] at here
      exact dispatch_reported (Opened.push here job)
  | drainEmpty batch phase queue empty => exact ⟨traced, trivial⟩
  | drainRest batch phase queue nonempty =>
      rw [phase] at here
      exact dispatch_reported here

/-! ## Batches that reach far enough -/

/-- The batch that is being confirmed. -/
def State.notified (state : State σ ρ) : Option (Batch σ) :=
  match state.phase with
  | .notifying _ batch _ => some batch
  | _ => none

/-- The batch has an event of the source that lies at or behind the start
position and every event of the source taken from the queue before. -/
def Batch.Reaches
    (start : SourceId → Nat)
    (source : SourceId)
    (trace : List (Output σ ρ))
    (batch : Batch σ) : Prop :=
  ∃ job ∈ batch.jobs, job.sourceId = source ∧
    start source ≤ job.ev.commitLsn ∧
    ∀ earlier ∈ (dequeued trace).take batch.first,
      earlier.sourceId = source → earlier.ev.commitLsn ≤ job.ev.commitLsn

instance (start : SourceId → Nat) (source : SourceId)
    (trace : List (Output σ ρ)) (batch : Batch σ) :
    Decidable (batch.Reaches start source trace) :=
  inferInstanceAs (Decidable (∃ job ∈ batch.jobs, _ ∧ _ ∧ _))

/-- A source is only confirmed for batches that reach far enough. -/
def Reaching (start : SourceId → Nat) (state : State σ ρ) :
    Label σ ρ → Prop
  | .confirm source =>
      ∀ batch ∈ state.notified, batch.Reaches start source state.trace
  | _ => True

instance (start : SourceId → Nat) (state : State σ ρ) :
    (label : Label σ ρ) → Decidable (Reaching start state label)
  | .confirm source => inferInstanceAs (Decidable
      (∀ batch ∈ state.notified, batch.Reaches start source state.trace))
  | .post _ | .stop | .checkRunning | .wait _ _ | .collect _ _ | .attempt _
  | .tryDequeue => inferInstanceAs (Decidable True)

/-- What a step adds to the stored values of a source: nothing, or a value
that is not below them. -/
theorem step_storedLsns
    {start : SourceId → Nat}
    (reported : Reported state)
    (reaching : Reaching start state label)
    (taken : step settings state label = some next)
    (source : SourceId) :
    ∃ added, storedLsns start source next.trace =
        storedLsns start source state.trace ++ added ∧
      (added = [] ∨ ∃ lsn, added = [lsn] ∧
        ∀ stored ∈ storedLsns start source state.trace, stored ≤ lsn) := by
  cases label with
  | confirm other =>
      obtain ⟨caller, batch, pending, entry, phase, member, key, trace⟩ :=
        confirm_of_step taken
      obtain ⟨job, inBatch, own, started, ahead⟩ :=
        reaching batch (by rw [State.notified, phase]; rfl)
      obtain ⟨_, here⟩ := reported
      rw [phase] at here
      obtain ⟨_, _, subset, earlier⟩ := here
      refine ⟨reports source [(.confirmed entry.1 entry.2 : Output σ ρ)],
        ?_, ?_⟩
      · rw [trace, storedLsns, storedLsns, reports_append, List.cons_append]
      · simp only [reports, List.flatMap_singleton]
        split <;> rename_i same
        · refine .inr ⟨entry.2, rfl, ?_⟩
          have top : job.ev.commitLsn ≤ entry.2 :=
            batch.maxLsn_spec.2 entry (subset member) job inBatch
              (own.trans key.symm)
          rw [storedLsns, List.forall_mem_cons]
          rw [← key, same] at own started ahead
          refine ⟨Nat.le_trans started top, fun stored old => ?_⟩
          obtain ⟨before, first, its, rfl⟩ :=
            earlier entry member stored (same ▸ old)
          exact Nat.le_trans (ahead before first (its.trans same)) top
        · exact .inl rfl
  | _ =>
      obtain ⟨outputs, trace, attributed, _⟩ := step_observed taken
      have quiet : Quiet outputs := by
        intro source lsn member
        cases attributed _ member
      refine ⟨[], ?_, .inl rfl⟩
      rw [trace, storedLsns, storedLsns, reports_append, quiet.reports,
        List.append_nil, List.append_nil]

theorem pingUpdate_le
    {start : SourceId → Nat}
    (ordered : (storedLsns start source trace).Pairwise (· ≤ ·))
    {earlier : List (Output σ ρ)}
    (before : earlier <+: trace) :
    pingUpdate start source earlier ≤ pingUpdate start source trace := by
  obtain ⟨later, rfl⟩ := before
  simp only [pingUpdate, storedLsns, reports_append, ← List.cons_append]
    at ordered ⊢
  by_cases silent : reports source later = []
  · simp only [silent, List.append_nil]
    exact le_rfl
  · rw [List.getLast_append_of_ne_nil _ silent]
    exact (List.pairwise_append.mp ordered).2.2 _ (List.getLast_mem _) _
      (List.getLast_mem silent)

/-- In every run whose batches reach far enough, the stored position of a
source and the one it reports never move backwards. -/
theorem storedLsns_nondecreasing
    (settings : Settings)
    (start : SourceId → Nat)
    (state : State σ ρ)
    (reachable : Transition.Reachable (step settings) (Reaching start) {}
      state)
    (source : SourceId) :
    (storedLsns start source state.trace).Pairwise (· ≤ ·) ∧
      ∀ earlier, earlier <+: state.trace →
        pingUpdate start source earlier ≤
          pingUpdate start source state.trace := by
  have invariant : Reported state ∧
      (storedLsns start source state.trace).Pairwise (· ≤ ·) := by
    refine reachable.invariant (fun state => Reported state ∧
      (storedLsns start source state.trace).Pairwise (· ≤ ·)) ?_ ?_
    · refine ⟨⟨fun source lsn impossible => ?_, trivial⟩,
        List.pairwise_singleton _ _⟩
      cases impossible
    · intro before label after both reaching taken
      refine ⟨step_reported both.1 taken, ?_⟩
      obtain ⟨added, stored, rfl | ⟨lsn, rfl, above⟩⟩ :=
        step_storedLsns both.1 reaching taken source
      · rw [stored, List.append_nil]
        exact both.2
      · rw [stored, List.pairwise_append]
        refine ⟨both.2, List.pairwise_singleton _ _, ?_⟩
        intro old member new last
        rw [List.mem_singleton.mp last]
        exact above old member
  exact ⟨invariant.2, fun earlier before =>
    pingUpdate_le invariant.2 before⟩

/-- Batches of two events reach behind the overlap of the sample stream. -/
def pairedRun : List (Label Unit Unit) :=
  [.post (streamJob 7 .insert 10), .post (streamJob 7 .commit 20),
    .post (streamJob 7 .insert 15), .post (streamJob 7 .insert 25),
    .checkRunning, .wait true 0, .collect 0 true, .collect 0 true,
    .attempt (.returned ()), .confirm 7, .checkRunning, .wait true 0,
    .collect 0 true, .collect 0 true, .attempt (.returned ()), .confirm 7]

theorem storedLsns_pairedRun :
    ∃ state : State Unit Unit,
      Transition.Reachable (step { maxBatchSize := 2 })
        (Reaching fun _ => 5) {} state ∧
      storedLsns (fun _ => 5) 7 state.trace = [5, 20, 25] ∧
      (storedLsns (fun _ => 5) 7 state.trace).Pairwise (· ≤ ·) := by
  obtain ⟨state, reachable, final⟩ := Transition.exists_reachable_of_guarded
    (Reaching fun _ => 5) pairedRun
    (show (Transition.run (Transition.guarded (step { maxBatchSize := 2 })
        (Reaching fun _ => 5)) {} pairedRun).any
      (fun state => storedLsns (fun _ => 5) 7 state.trace = [5, 20, 25]) =
        true by decide)
  exact ⟨state, reachable, of_decide_eq_true final,
    (storedLsns_nondecreasing _ _ state reachable 7).1⟩

/-- The sample stream in batches of one event. -/
def singleRun : List (Label Unit Unit) :=
  [.post (streamJob 7 .insert 10), .post (streamJob 7 .commit 20),
    .post (streamJob 7 .insert 15),
    .checkRunning, .wait true 0, .collect 0 true, .attempt (.returned ()),
    .confirm 7, .checkRunning, .wait true 0, .collect 0 true,
    .attempt (.returned ()), .confirm 7, .checkRunning, .wait true 0,
    .collect 0 true, .attempt (.returned ()), .confirm 7]

/-- A batch that holds only the first change of the second transaction moves
the stored position back behind the commit of the first. -/
theorem not_nondecreasing_singleRun :
    ∃ state : State Unit Unit,
      Transition.Reachable (step {}) (Follows sampleStreams [⟨(), true⟩]) {}
        state ∧
      storedLsns (fun _ => 0) 7 state.trace = [0, 10, 20, 15] ∧
      ¬(storedLsns (fun _ => 0) 7 state.trace).Pairwise (· ≤ ·) := by
  obtain ⟨state, reachable, final⟩ := Transition.exists_reachable_of_guarded
    (Follows sampleStreams [⟨(), true⟩]) singleRun
    (show (Transition.run (Transition.guarded (step {})
        (Follows sampleStreams [⟨(), true⟩])) {} singleRun).any
      (fun state => storedLsns (fun _ => 0) 7 state.trace =
        [0, 10, 20, 15]) = true by decide)
  have stored := of_decide_eq_true final
  exact ⟨state, reachable, stored, by rw [stored]; decide⟩

end Dispatcher
end Walkrie
