import Walkrie.Dispatcher.Delivery

/-!
# Confirmed positions never run ahead of delivery

A source streams transactions in commit order, but the events inside them
carry their own write-ahead-log positions, which may lie below commits that
were streamed earlier.  What is confirmed is the maximum over a batch.  The
invariant says how far the posting order is covered by a confirmed position:
up to a point behind which everything has been delivered, and which lies past
every transaction that committed at or below that position.
-/

namespace Walkrie
namespace Dispatcher

/-! ## What a source streams -/

/-- A transaction as it is streamed: its changes, then the Commit marker. -/
structure Transaction where
  changes : List ChangeEvent
  marker : ChangeEvent
  marker_op : marker.op = .commit
  /-- No change lies behind the commit. -/
  bounded : ∀ change ∈ changes, change.commitLsn ≤ marker.commitLsn

namespace Transaction

/-- The position of the Commit marker. -/
def commitLsn (transaction : Transaction) : Nat :=
  transaction.marker.commitLsn

/-- The events in streaming order. -/
def events (transaction : Transaction) : List ChangeEvent :=
  transaction.changes ++ [transaction.marker]

/-- Only the Commit marker carries the commit position. -/
def MarkerOnly (transaction : Transaction) : Prop :=
  ∀ change ∈ transaction.changes,
    change.commitLsn < transaction.commitLsn

theorem lsn_le_commitLsn
    {transaction : Transaction}
    {event : ChangeEvent}
    (member : event ∈ transaction.events) :
    event.commitLsn ≤ transaction.commitLsn := by
  rcases List.mem_append.mp member with change | marker
  · exact transaction.bounded event change
  · rw [List.mem_singleton.mp marker]
    exact Nat.le_refl _

/-- The event that carries the commit position is the last one. -/
theorem MarkerOnly.last
    {transaction : Transaction}
    {event : ChangeEvent}
    {index : Nat}
    (markerOnly : transaction.MarkerOnly)
    (present : transaction.events[index]? = some event)
    (reached : transaction.commitLsn ≤ event.commitLsn) :
    index + 1 = transaction.events.length := by
  have inside := (List.getElem?_eq_some_iff.mp present).1
  simp only [events, List.length_append, List.length_singleton] at inside ⊢
  by_contra early
  have isChange : index < transaction.changes.length := by omega
  rw [events, List.getElem?_append_left isChange] at present
  have below := markerOnly event (List.mem_of_getElem? present)
  omega

end Transaction

/-- The transaction an event belongs to, by the event's index in the flattened
stream. -/
def owner? : List Transaction → Nat → Option Transaction
  | [], _ => none
  | transaction :: transactions, index =>
      if index < transaction.events.length then some transaction
      else owner? transactions (index - transaction.events.length)

/-- The transactions of one source, in strictly increasing commit order. -/
structure Stream where
  transactions : List Transaction
  increasing : transactions.Pairwise fun earlier later =>
    earlier.commitLsn < later.commitLsn

/-- All events of a stream in streaming order. -/
def Stream.events (stream : Stream) : List ChangeEvent :=
  stream.transactions.flatMap Transaction.events

theorem mem_of_owner?
    {transactions : List Transaction}
    {index : Nat}
    {transaction : Transaction}
    (owned : owner? transactions index = some transaction) :
    transaction ∈ transactions := by
  induction transactions generalizing index with
  | nil => cases owned
  | cons first rest inductionHypothesis =>
      simp only [owner?] at owned
      split at owned
      · cases owned
        exact List.mem_cons_self
      · exact List.mem_cons_of_mem first (inductionHypothesis owned)

/-- An event that reaches the commit position of a transaction comes at or
after every event of that transaction. -/
theorem le_of_owner?
    {transactions : List Transaction}
    (increasing : transactions.Pairwise fun earlier later =>
      earlier.commitLsn < later.commitLsn)
    (markers : ∀ transaction ∈ transactions, transaction.MarkerOnly)
    {index position : Nat}
    {owner : Transaction}
    {event : ChangeEvent}
    (owned : owner? transactions index = some owner)
    (present :
      (transactions.flatMap Transaction.events)[position]? = some event)
    (reached : owner.commitLsn ≤ event.commitLsn) :
    index ≤ position := by
  induction transactions generalizing index position with
  | nil => cases owned
  | cons first rest inductionHypothesis =>
      obtain ⟨before, increasing⟩ := List.pairwise_cons.mp increasing
      simp only [owner?] at owned
      rw [List.flatMap_cons] at present
      by_cases here : position < first.events.length
      · rw [List.getElem?_append_left here] at present
        split at owned
        · cases owned
          have last := (markers owner List.mem_cons_self).last present reached
          omega
        · -- A later owner committed past every event of the first one.
          have later := before owner (mem_of_owner? owned)
          have bound := Transaction.lsn_le_commitLsn
            (List.mem_of_getElem? present)
          omega
      · rw [List.getElem?_append_right (Nat.le_of_not_lt here)] at present
        split at owned
        · omega
        · have tail := inductionHypothesis increasing
            (fun transaction member =>
              markers transaction (List.mem_cons_of_mem first member))
            owned present
          omega

/-! ## Positions of one source in the posting order -/

variable {σ ρ : Type}
variable {settings : Settings} {sinks : List (SinkHandle σ)}
variable {state next : State σ ρ} {label : Label σ ρ}

/-- Events of one source, in posting order. -/
def postedBy (source : SourceId) (jobs : List (EventJob σ)) :
    List ChangeEvent :=
  (jobs.filter fun job => job.sourceId = source).map EventJob.ev

/-- How many jobs of one source come before a position. -/
def rank (source : SourceId) (jobs : List (EventJob σ)) (position : Nat) :
    Nat :=
  (jobs.take position).countP fun job => job.sourceId = source

theorem rank_mono
    (source : SourceId)
    (jobs : List (EventJob σ))
    {first second : Nat}
    (ordered : first ≤ second) :
    rank source jobs first ≤ rank source jobs second :=
  (List.take_sublist_take_left ordered).countP_le

theorem rank_append
    (source : SourceId)
    (jobs later : List (EventJob σ))
    {position : Nat}
    (inside : position ≤ jobs.length) :
    rank source (jobs ++ later) position = rank source jobs position := by
  rw [rank, rank, List.take_append_of_le_length inside]

/-- A job is found among the events of its source at its rank, and the rank
grows behind it. -/
theorem postedBy_rank
    {jobs : List (EventJob σ)}
    {position : Nat}
    {job : EventJob σ}
    (present : jobs[position]? = some job) :
    (postedBy job.sourceId jobs)[rank job.sourceId jobs position]? =
        some job.ev ∧
      rank job.sourceId jobs (position + 1) =
        rank job.sourceId jobs position + 1 := by
  obtain ⟨inside, here⟩ := List.getElem?_eq_some_iff.mp present
  have split : jobs = jobs.take position ++
      job :: jobs.drop (position + 1) := by
    rw [← here, List.getElem_cons_drop, List.take_append_drop]
  refine ⟨?_, ?_⟩
  · unfold postedBy rank
    rw [List.countP_eq_length_filter]
    conv_lhs => arg 1; rw [split]
    simp
  · unfold rank
    rw [List.take_succ_eq_append_getElem inside, List.countP_append, here]
    simp

/-! ## Confirmed positions -/

@[simp] theorem lastConfirmed_append_confirmed
    (source other : SourceId)
    (lsn : Nat)
    (trace : List (Output σ ρ)) :
    lastConfirmed source (trace ++ [.confirmed other lsn]) =
      if other = source then some lsn else lastConfirmed source trace := by
  simp [lastConfirmed, List.foldl_append]

theorem lastConfirmed_append
    (source : SourceId)
    (trace : List (Output σ ρ))
    {outputs : List (Output σ ρ)}
    (absent : ∀ lsn, Output.confirmed source lsn ∉ outputs) :
    lastConfirmed source (trace ++ outputs) = lastConfirmed source trace := by
  induction outputs generalizing trace with
  | nil => rw [List.append_nil]
  | cons output outputs inductionHypothesis =>
      rw [List.append_cons, inductionHypothesis _ fun lsn member =>
        absent lsn (List.mem_cons_of_mem output member)]
      cases output with
      | confirmed other lsn =>
          have different : other ≠ source := by
            rintro rfl
            exact absent lsn List.mem_cons_self
          simp [different]
      | _ => simp [lastConfirmed, List.foldl_append]

theorem raiseLsn_mem
    {source : SourceId}
    {lsn : Nat}
    {lsns : List (SourceId × Nat)}
    {entry : SourceId × Nat}
    (member : entry ∈ raiseLsn source lsn lsns) :
    entry ∈ lsns ∨ entry = (source, lsn) := by
  induction lsns with
  | nil => exact .inr (List.mem_singleton.mp member)
  | cons head lsns inductionHypothesis =>
      simp only [raiseLsn] at member
      split at member <;> rename_i same
      · rcases List.mem_cons.mp member with here | later
        · rcases Nat.le_total lsn head.2 with kept | raised
          · refine .inl (here ▸ ?_)
            rw [Nat.max_eq_left kept, ← same]
            exact List.mem_cons_self
          · exact .inr (by rw [here, Nat.max_eq_right raised])
        · exact .inl (List.mem_cons_of_mem head later)
      · rcases List.mem_cons.mp member with here | later
        · exact .inl (here ▸ List.mem_cons_self)
        · rcases inductionHypothesis later with old | new
          · exact .inl (List.mem_cons_of_mem head old)
          · exact .inr new

/-- Every confirmed maximum is the position of some job of the batch. -/
theorem Batch.exists_job_of_maxLsn
    {batch : Batch σ}
    {entry : SourceId × Nat}
    (member : entry ∈ batch.maxLsn) :
    ∃ job ∈ batch.jobs, entry = (job.sourceId, job.ev.commitLsn) := by
  have general : ∀ (jobs : List (EventJob σ)) (lsns : List (SourceId × Nat)),
      entry ∈ jobs.foldl (fun lsns job =>
        raiseLsn job.sourceId job.ev.commitLsn lsns) lsns →
      entry ∈ lsns ∨
        ∃ job ∈ jobs, entry = (job.sourceId, job.ev.commitLsn) := by
    intro jobs
    induction jobs with
    | nil => exact fun _ member => .inl member
    | cons job jobs inductionHypothesis =>
        intro lsns member
        rcases inductionHypothesis _ member with raised | ⟨other, inside, eq⟩
        · rcases raiseLsn_mem raised with old | new
          · exact .inl old
          · exact .inr ⟨job, List.mem_cons_self, new⟩
        · exact .inr ⟨other, List.mem_cons_of_mem job inside, eq⟩
  rcases general batch.jobs [] member with impossible | found
  · cases impossible
  · exact found

/-! ## The invariant -/

/-- Sources post the events of their streams in order, to one sink list. -/
def Follows
    (streams : SourceId → Stream)
    (sinks : List (SinkHandle σ))
    (state : State σ ρ) : Label σ ρ → Prop
  | .post job =>
      job.sinks = sinks ∧
        postedBy job.sourceId (posted state.trace) ++ [job.ev] <+:
          (streams job.sourceId).events
  | _ => True

instance [DecidableEq σ]
    (streams : SourceId → Stream)
    (sinks : List (SinkHandle σ))
    (state : State σ ρ) :
    (label : Label σ ρ) → Decidable (Follows streams sinks state label)
  | .post job => inferInstanceAs (Decidable (job.sinks = sinks ∧
      postedBy job.sourceId (posted state.trace) ++ [job.ev] <+:
        (streams job.sourceId).events))
  | .stop | .checkRunning | .wait _ _ | .collect _ _ | .attempt _
  | .confirm _ | .tryDequeue => inferInstanceAs (Decidable True)

theorem Follows.sharesSinks
    {streams : SourceId → Stream}
    (follows : Follows streams sinks state label) :
    SharesSinks sinks label := by
  cases label with
  | post job => exact follows.1
  | _ => trivial

/-- A frontier of the posting order behind which everything is delivered, and
which lies past every event of every transaction committed by `lsn`. -/
def Covered
    (stream : Stream)
    (sinks : List (SinkHandle σ))
    (trace : List (Output σ ρ))
    (source : SourceId)
    (lsn : Nat) : Prop :=
  ∃ frontier ≤ (posted trace).length,
    (∀ position < frontier, Delivered sinks trace position) ∧
    ∀ index transaction,
      owner? stream.transactions index = some transaction →
      transaction.commitLsn ≤ lsn →
        index < rank source (posted trace) frontier

theorem Covered.append
    {stream : Stream}
    {trace : List (Output σ ρ)}
    {source : SourceId}
    {lsn : Nat}
    (covered : Covered stream sinks trace source lsn)
    (outputs : List (Output σ ρ)) :
    Covered stream sinks (trace ++ outputs) source lsn := by
  obtain ⟨frontier, inside, delivered, past⟩ := covered
  refine ⟨frontier, ?_, ?_, ?_⟩
  · simp only [posted_append, List.length_append]
    omega
  · exact fun position behind => (delivered position behind).append outputs
  · intro index transaction owned committed
    rw [posted_append, rank_append source _ _ inside]
    exact past index transaction owned committed

/-- Posting follows the streams, and every confirmed position is covered. -/
structure Confirmable
    (streams : SourceId → Stream)
    (sinks : List (SinkHandle σ))
    (state : State σ ρ) : Prop where
  streamed : ∀ source,
    postedBy source (posted state.trace) <+: (streams source).events
  covered : ∀ source lsn, lastConfirmed source state.trace = some lsn →
    Covered (streams source) sinks state.trace source lsn

/-- What the callback confirms for a settled batch is covered by everything
dequeued so far. -/
theorem covered_of_settled
    {streams : SourceId → Stream}
    {batch : Batch σ}
    {entry : SourceId × Nat}
    (markers : ∀ source, ∀ transaction ∈ (streams source).transactions,
      transaction.MarkerOnly)
    (streamed : ∀ source,
      postedBy source (posted state.trace) <+: (streams source).events)
    (queue : posted state.trace = dequeued state.trace ++ state.queue)
    (settled : Settled sinks state.trace)
    (jobs : (dequeued state.trace).drop batch.first = batch.jobs)
    (member : entry ∈ batch.maxLsn) :
    Covered (streams entry.1) sinks state.trace entry.1 entry.2 := by
  obtain ⟨job, inBatch, rfl⟩ := Batch.exists_job_of_maxLsn member
  have inside : job ∈ dequeued state.trace :=
    List.mem_of_mem_drop (jobs ▸ inBatch)
  obtain ⟨position, bound, found⟩ := List.mem_iff_getElem.mp inside
  have present : (posted state.trace)[position]? = some job := by
    rw [queue, List.getElem?_append_left bound,
      List.getElem?_eq_getElem bound, found]
  obtain ⟨atRank, grows⟩ := postedBy_rank present
  obtain ⟨rest, whole⟩ := streamed job.sourceId
  have inStream : (streams job.sourceId).events[
      rank job.sourceId (posted state.trace) position]? = some job.ev := by
    rw [← whole, List.getElem?_append_left
      (List.getElem?_eq_some_iff.mp atRank).1, atRank]
  refine ⟨(dequeued state.trace).length, ?_, settled.delivered, ?_⟩
  · rw [queue, List.length_append]
    omega
  · intro index transaction owned committed
    have reached := le_of_owner? (streams job.sourceId).increasing
      (markers job.sourceId) owned inStream committed
    have further := rank_mono job.sourceId (posted state.trace)
      (show position + 1 ≤ (dequeued state.trace).length from bound)
    show index < rank job.sourceId (posted state.trace) _
    omega

theorem posted_eq_nil
    {outputs : List (Output σ ρ)}
    (attributed : Attributed state label outputs)
    (noPost : ∀ job, label ≠ .post job) :
    posted outputs = [] := by
  rw [posted, List.flatMap_eq_nil_iff]
  intro output member
  cases output with
  | posted job => exact absurd (attributed _ member) (noPost job)
  | _ => rfl

/-- A step that confirms nothing keeps what is covered. -/
theorem Confirmable.silent
    {streams : SourceId → Stream}
    (confirmable : Confirmable streams sinks state)
    {outputs : List (Output σ ρ)}
    (trace : next.trace = state.trace ++ outputs)
    (absent : ∀ source lsn, Output.confirmed source lsn ∉ outputs)
    (streamed : ∀ source,
      postedBy source (posted next.trace) <+: (streams source).events) :
    Confirmable streams sinks next where
  streamed := streamed
  covered := by
    intro source lsn last
    rw [trace, lastConfirmed_append source _ (absent source)] at last
    rw [trace]
    exact (confirmable.covered source lsn last).append outputs

/-- Every step of a followed stream keeps confirmed positions covered. -/
theorem step_confirmable
    {streams : SourceId → Stream}
    (markers : ∀ source, ∀ transaction ∈ (streams source).transactions,
      transaction.MarkerOnly)
    (sound : Sound settings sinks state)
    (confirmable : Confirmable streams sinks state)
    (follows : Follows streams sinks state label)
    (taken : step settings state label = some next) :
    Confirmable streams sinks next := by
  cases label with
  | post job =>
      cases moves_of_step taken with
      | post _ running =>
          refine confirmable.silent rfl (by simp) fun source => ?_
          simp only [emit_trace, posted_append, posted_posted]
          by_cases own : job.sourceId = source
          · subst own
            simpa [postedBy] using follows.2
          · simpa [postedBy, own] using confirmable.streamed source
  | confirm source =>
      obtain ⟨caller, batch, pending, entry, position, member, _, trace⟩ :=
        confirm_of_step taken
      have phase := sound.phase
      simp only [PhaseSound, position] at phase
      obtain ⟨_, _, _, sent, subset, openBatch⟩ := phase
      have covered := covered_of_settled markers confirmable.streamed
        sound.core.queue (openBatch.settled sent sound.core.queue)
        openBatch.jobs_eq (subset entry member)
      refine ⟨fun other => ?_, fun other lsn last => ?_⟩
      · rw [trace, posted_append]
        simpa [posted] using confirmable.streamed other
      · rw [trace, lastConfirmed_append_confirmed] at last
        rw [trace]
        split at last <;> rename_i same
        · cases last
          exact same ▸ covered.append _
        · exact (confirmable.covered other lsn last).append _
  | _ =>
      obtain ⟨outputs, trace, attributed, _⟩ := step_observed taken
      refine confirmable.silent trace
        (fun source lsn member => by
          cases attributed _ member)
        fun source => ?_
      rw [trace, posted_append, posted_eq_nil attributed (by simp),
        List.append_nil]
      exact confirmable.streamed source

/-- If the last position confirmed for a source is `lsn`, every posted event of
every transaction of it that committed by `lsn` has been delivered. -/
def ConfirmedDelivered
    (streams : SourceId → Stream)
    (sinks : List (SinkHandle σ))
    (state : State σ ρ) : Prop :=
  ∀ source lsn, lastConfirmed source state.trace = some lsn →
    ∀ position job transaction,
      (posted state.trace)[position]? = some job →
      job.sourceId = source →
      owner? (streams source).transactions
        (rank source (posted state.trace) position) = some transaction →
      transaction.commitLsn ≤ lsn →
        Delivered sinks state.trace position

/-- Confirmation never runs ahead of delivery, provided that only Commit
markers carry commit positions. -/
theorem confirmedDelivered_of_reachable
    (settings : Settings)
    (streams : SourceId → Stream)
    (sinks : List (SinkHandle σ))
    (state : State σ ρ)
    (reports : settings.onFatal = true)
    (markers : ∀ source, ∀ transaction ∈ (streams source).transactions,
      transaction.MarkerOnly)
    (reachable : Transition.Reachable (step settings)
      (Follows streams sinks) {} state) :
    ConfirmedDelivered streams sinks state := by
  have invariant : Sound settings sinks state ∧
      Confirmable streams sinks state := by
    refine reachable.invariant (fun state => Sound settings sinks state ∧
      Confirmable streams sinks state) ⟨initial_sound, ?_, ?_⟩ ?_
    · exact fun source => List.nil_prefix
    · intro source lsn last
      cases last
    · intro before label after both follows taken
      refine ⟨step_sound both.1 ⟨follows.sharesSinks, ?_⟩ taken,
        step_confirmable markers both.1 both.2 follows taken⟩
      intro stalls
      simp [stalls.1] at reports
  intro source lsn last position job transaction _ _ owned committed
  obtain ⟨frontier, _, delivered, past⟩ :=
    invariant.2.covered source lsn last
  apply delivered
  by_contra beyond
  have ranked := past _ transaction owned committed
  have ordered := rank_mono source (posted state.trace)
    (Nat.le_of_not_lt beyond)
  omega

/-- A transaction whose changes are inserts at the given positions. -/
def sampleTransaction
    (lsns : List Nat)
    (commit : Nat)
    (bounded : ∀ lsn ∈ lsns, lsn ≤ commit) : Transaction where
  changes := lsns.map fun lsn =>
    { op := .insert, tableName := "docs", commitLsn := lsn }
  marker := { op := .commit, commitLsn := commit }
  marker_op := rfl
  bounded := by simpa using bounded

/-- Two sources; the second transaction of source 7 starts below the commit of
its first. -/
def sampleStreams : SourceId → Stream
  | 7 =>
      ⟨[sampleTransaction [10] 20 (by decide),
        sampleTransaction [15, 25] 30 (by decide)], by simp; decide⟩
  | 9 => ⟨[sampleTransaction [12] 18 (by decide)], by simp⟩
  | _ => ⟨[], .nil⟩

/-- A job for an event of the sample streams. -/
def streamJob (source : SourceId) (op : Op) (lsn : Nat) : EventJob Unit where
  ev := { op, tableName := if op = .commit then "" else "docs",
          commitLsn := lsn }
  sourceId := source
  sinks := [⟨(), true⟩]

/-- The sources' jobs interleave in batches of two, and the second batch
confirms both first transactions. -/
def interleavedRun : List (Label Unit Unit) :=
  [.post (streamJob 7 .insert 10), .post (streamJob 9 .insert 12),
    .post (streamJob 7 .commit 20), .post (streamJob 9 .commit 18),
    .post (streamJob 7 .insert 15), .checkRunning, .wait true 0,
    .collect 0 true, .collect 0 true, .attempt (.returned ()), .confirm 7,
    .confirm 9, .checkRunning, .wait true 0, .collect 0 true,
    .collect 0 true, .attempt (.threw 0), .attempt (.returned ()),
    .confirm 9, .confirm 7]

theorem confirmedDelivered_interleavedRun :
    ∃ state : State Unit Unit,
      Transition.Reachable (step { maxBatchSize := 2 })
        (Follows sampleStreams [⟨(), true⟩]) {} state ∧
      (lastConfirmed 7 state.trace = some 20 ∧
        (posted state.trace).length = 5) ∧
      ConfirmedDelivered sampleStreams [⟨(), true⟩] state := by
  obtain ⟨state, reachable, final⟩ := Transition.exists_reachable_of_guarded
    (Follows sampleStreams [⟨(), true⟩]) interleavedRun
    (show (Transition.run (Transition.guarded (step { maxBatchSize := 2 })
        (Follows sampleStreams [⟨(), true⟩])) {} interleavedRun).any
      (fun state => lastConfirmed 7 state.trace = some 20 ∧
        (posted state.trace).length = 5) = true by decide)
  refine ⟨state, reachable, by simpa using final,
    confirmedDelivered_of_reachable _ _ _ state rfl ?_ reachable⟩
  intro source transaction member
  unfold sampleStreams at member
  split at member
  · rcases List.mem_cons.mp member with rfl | member
    · simp [Transaction.MarkerOnly, sampleTransaction, Transaction.commitLsn]
    · rw [List.mem_singleton.mp member]
      simp [Transaction.MarkerOnly, sampleTransaction, Transaction.commitLsn]
  · rw [List.mem_singleton.mp member]
    simp [Transaction.MarkerOnly, sampleTransaction, Transaction.commitLsn]
  · cases member

/-- One transaction with two changes at its own commit position. -/
def coincidentStreams : SourceId → Stream :=
  fun _ => ⟨[sampleTransaction [10, 10] 10 (by decide)], by simp⟩

/-- The first change alone confirms the commit position. -/
def coincidentRun : List (Label Unit Unit) :=
  [.post (streamJob 7 .insert 10), .post (streamJob 7 .insert 10),
    .checkRunning, .wait true 0, .collect 0 true, .attempt (.returned ()),
    .confirm 7]

/-- A change that carries the commit position itself is enough to confirm the
transaction while its other events are still queued. -/
theorem not_confirmedDelivered_coincidentRun :
    ¬∀ (settings : Settings) (streams : SourceId → Stream)
        (sinks : List (SinkHandle Unit)) (state : State Unit Unit),
      settings.onFatal = true →
      Transition.Reachable (step settings) (Follows streams sinks) {} state →
      ConfirmedDelivered streams sinks state := by
  intro claim
  let job := streamJob 7 .insert 10
  let batch : Batch Unit := ⟨0, [job], [⟨(), true⟩]⟩
  obtain ⟨state, reachable, final⟩ := Transition.exists_reachable_of_guarded
    (Follows coincidentStreams [⟨(), true⟩]) coincidentRun
    (show (Transition.run (Transition.guarded (step {})
        (Follows coincidentStreams [⟨(), true⟩])) {} coincidentRun).any
      (fun state => state.trace =
        [.posted job, .posted job, .dequeued job, .dispatched batch,
          .called 0 batch (.returned ()), .completed 0 batch,
          .confirmed 7 10]) = true by decide)
  have trace := of_decide_eq_true final
  have delivered := claim {} coincidentStreams [⟨(), true⟩] state rfl
    reachable 7 10 (by rw [trace]; rfl) 1 job
    (sampleTransaction [10, 10] 10 (by decide)) (by rw [trace]; rfl) rfl
    (by rw [trace]; rfl) (Nat.le_refl _)
  obtain ⟨other, sent, _, inside, _⟩ := delivered
  have same : other = batch := by
    rw [trace] at sent
    simpa using sent
  subst same
  exact absurd inside (by decide)

end Dispatcher
end Walkrie
