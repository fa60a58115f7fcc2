import Walkrie.Dispatcher.Report
import Walkrie.Pipeline.Feed
import Walkrie.Sink.Durable
import Walkrie.Sink.Live
import Walkrie.Sink.Recovery

/-!
# From the replication stream to the rows of a sink

The daemon as a whole: frames are decoded, their events posted to the
dispatcher, batches handed to the sinks with retries, positions confirmed and
reported to the server.  The process may end at any moment and start again
from where the slot stands.  The table of a required embedding sink can at any
moment be led to the right content by what the server would send next, so
every crash is survived.
-/

namespace Walkrie
namespace Dispatcher

variable {σ ρ : Type}
variable {settings : Settings} {sinks : List (SinkHandle σ)}
variable {state next : State σ ρ} {label : Label σ ρ}

/-! ## The calls of one sink -/

/-- The sink at an index has finished no batch, and no call of it has
returned. -/
def Apart (index : Nat) (outputs : List (Output σ ρ)) : Prop :=
  completedJobs index outputs = [] ∧
    ∀ batch report, Output.called index batch (.returned report) ∉ outputs

/-- A step that is no attempt on the sink at an index leaves it alone. -/
theorem step_apart
    {index : Nat}
    (elsewhere : ∀ outcome caller batch backoff,
      label = .attempt outcome →
      state.phase ≠ .dispatching caller batch index backoff)
    (taken : step settings state label = some next) :
    ∃ outputs, next.trace = state.trace ++ outputs ∧ Apart index outputs := by
  cases moves_of_step taken with
  | post job running => exact ⟨[.posted job], rfl, by simp [Apart]⟩
  | stop | keepRunning | leaveLoop | timeOut | drainEmpty =>
      exact ⟨[], (List.append_nil _).symm, rfl, by simp⟩
  | openBatch now job rest phase queue =>
      exact ⟨[.dequeued job], rfl, by simp [Apart]⟩
  | fillBatch now batch deadline job rest phase room queue =>
      exact ⟨[.dequeued job], rfl, by simp [Apart]⟩
  | closeBatch now arrived batch deadline phase =>
      exact ⟨[.dispatched batch], by simp, rfl, by simp⟩
  | complete outcome caller batch position backoff handle phase present =>
      have other : position ≠ index := by
        rintro rfl
        exact elsewhere outcome caller batch backoff rfl phase
      refine ⟨[.called position batch outcome, .completed position batch],
        by simp, ?_, by simp [other.symm]⟩
      simp [completedJobs, other]
  | retry outcome caller batch position backoff later handle phase present =>
      have other : position ≠ index := by
        rintro rfl
        exact elsewhere outcome caller batch backoff rfl phase
      exact ⟨[.called position batch outcome], rfl, rfl,
        by simp [other.symm]⟩
  | giveUp outcome caller batch position backoff handle phase present
      verdict =>
      have other : position ≠ index := by
        rintro rfl
        exact elsewhere outcome caller batch backoff rfl phase
      refine ⟨.called position batch outcome :: .gaveUp position batch ::
        fatalReport settings state, ?_, ?_, ?_⟩
      · rw [dispatchFailed_trace]
        simp [fatalReport]
      · unfold fatalReport
        split <;> rfl
      · unfold fatalReport
        split <;> simp [other.symm]
  | confirmLast caller batch pending entry phase member =>
      exact ⟨[.confirmed entry.1 entry.2], by simp, rfl, by simp⟩
  | confirm caller batch pending entry phase member =>
      exact ⟨[.confirmed entry.1 entry.2], rfl, rfl, by simp⟩
  | drain batch job rest phase queue room =>
      exact ⟨[.dequeued job], rfl, by simp [Apart]⟩
  | drainFull batch job rest phase queue full =>
      exact ⟨_, (dispatch_trace _).trans (List.append_assoc _ _ _), rfl,
        by simp⟩
  | drainRest batch phase queue nonempty =>
      exact ⟨_, dispatch_trace _, rfl, by simp⟩

/-- An attempt on a required sink either returns and finishes its batch, or
throws and finishes nothing. -/
theorem attempt_observed
    {outcome : Attempt ρ}
    {caller : Caller}
    {batch : Batch σ}
    {position backoff : Nat}
    {handle : SinkHandle σ}
    (phase : state.phase = .dispatching caller batch position backoff)
    (present : batch.sinks[position]? = some handle)
    (required : handle.required = true)
    (taken : step settings state (.attempt outcome) = some next) :
    match outcome with
    | .returned _ =>
        next.trace = state.trace ++
          [.called position batch outcome, .completed position batch]
    | .threw _ =>
        ∃ outputs, next.trace = state.trace ++ outputs ∧
          posted outputs = [] ∧ Apart position outputs := by
  simp only [step, phase, present] at taken
  cases outcome with
  | returned report =>
      simp only [dispatchWithRetry, Option.some_inj] at taken
      simp [← taken]
  | threw elapsed =>
      simp only [dispatchWithRetry, required, Bool.not_true,
        Bool.false_eq_true, if_false] at taken
      split at taken
      · -- The branch of the return is not taken for a required sink.
        rename_i verdict
        split at verdict <;> cases verdict
      · cases taken
        exact ⟨[.called position batch (.threw elapsed)], rfl, rfl, rfl,
          by simp⟩
      · cases taken
        refine ⟨.called position batch (.threw elapsed) ::
          .gaveUp position batch :: fatalReport settings state, ?_, ?_⟩
        · rw [dispatchFailed_trace]
          simp [fatalReport]
        · unfold fatalReport
          split <;> exact ⟨rfl, rfl, by simp⟩

theorem pingUpdate_eq
    (start : SourceId → Nat)
    (source : SourceId)
    (trace : List (Output σ ρ)) :
    pingUpdate start source trace =
      (lastConfirmed source trace).getD (start source) := by
  induction trace using List.reverseRecOn with
  | nil => rfl
  | append_singleton trace output inductionHypothesis =>
      have stays : ∀ {outputs : List (Output σ ρ)},
          reports source outputs = [] →
          (∀ lsn, Output.confirmed source lsn ∉ outputs) →
          pingUpdate start source (trace ++ outputs) =
            (lastConfirmed source (trace ++ outputs)).getD
              (start source) := by
        intro outputs unstored absent
        rw [lastConfirmed_append source trace absent, ← inductionHypothesis]
        simp [pingUpdate, storedLsns, unstored]
      cases output with
      | confirmed other lsn =>
          by_cases own : other = source
          · subst own
            simp [pingUpdate, storedLsns, reports]
          · exact stays (by simp [reports, own])
              (by simp [Ne.symm own])
      | _ => exact stays (by simp [reports]) (by simp)

end Dispatcher

namespace Pipeline

open Dispatcher Wire Sink

variable {σ φ : Type}

/-! ## The daemon and its server -/

/-- The daemon as it is configured: one source, and the sinks every job
carries.  One of them, required, is an embedding sink. -/
structure Deployment (σ : Type) where
  settings : Settings
  source : SourceId
  sinks : List (SinkHandle σ)
  /-- Index of the embedding sink in the list of sinks. -/
  followed : Nat
  mappings : List TableMapping
  /-- `main` installs the fatal callback. -/
  installed : settings.onFatal = true
  required : ∃ handle,
    sinks[followed]? = some handle ∧ handle.required = true

/-- What the server has logged since the slot was created at `origin`. -/
structure Log where
  origin : Nat
  stream : Stream
  later : ∀ transaction ∈ stream.transactions,
    origin < transaction.commitLsn
  markers : ∀ transaction ∈ stream.transactions, transaction.MarkerOnly

/-- The commit positions of no transaction increase. -/
theorem increasing_nil :
    ([] : List Transaction).Pairwise fun earlier later =>
      earlier.commitLsn < later.commitLsn :=
  .nil

/-- The streams the sources of the daemon post when the connection of its one
source started at a position. -/
def Log.streams (log : Log) (source : SourceId) (start : Nat) :
    SourceId → Stream :=
  fun other =>
    if other = source then log.stream.after start else ⟨[], increasing_nil⟩

/-- The process, the slot on the server and the table of the followed sink. -/
structure State (σ φ : Type) where
  dispatcher : Dispatcher.State σ Unit := {}
  connection : ReplicationState := {}
  /-- Frames the server sends that have not been read. -/
  incoming : List (List UInt8) := []
  /-- Events of the last frame that have not been handed over. -/
  decoded : List ChangeEvent := []
  /-- The position the connection started from. -/
  start : Nat
  /-- The position the slot stands at. -/
  slot : Nat
  records : Records φ

inductive Label (σ φ : Type)
  /-- `PQgetCopyData` returns the next frame. -/
  | receive (regress : Bool)
  /-- `handle_` is called with the next event of the frame. -/
  | handle
  /-- A step of the dispatcher, other than a call of the followed sink. -/
  | dispatch (label : Dispatcher.Label σ Unit)
  /-- `call_batch` of the followed sink. -/
  | callBatch (environment : Environment φ) (elapsed : Nat)
  /-- A status update reaches the server. -/
  | ping (regress : Bool)
  /-- The process ends, and another one connects. -/
  | restart (packets : List Packet)

/-- Steps of the dispatcher that are neither a post nor a call of the followed
sink. -/
def unattended (followed : Nat) (state : Dispatcher.State σ Unit) :
    Dispatcher.Label σ Unit → Bool
  | .post _ => false
  | .attempt _ =>
      match state.phase with
      | .dispatching _ _ position _ => position != followed
      | _ => true
  | _ => true

namespace State

/-- The server takes over the reported position.  Whether it lets a slot go
back is left open. -/
def ping
    (deployment : Deployment σ)
    (regress : Bool)
    (state : State σ φ) : State σ φ :=
  let reported := pingUpdate (fun _ => state.start) deployment.source
    state.dispatcher.trace
  { state with slot := if regress then reported else max state.slot reported }

/-- The dispatcher moves on. -/
def move
    (deployment : Deployment σ)
    (label : Dispatcher.Label σ Unit)
    (state : State σ φ) : Option (State σ φ) :=
  (Dispatcher.step deployment.settings state.dispatcher label).map
    fun dispatcher => { state with dispatcher }

end State

/-- One step of the daemon, or its end and a new beginning. -/
def step (deployment : Deployment σ) (state : State σ φ) :
    Label σ φ → Option (State σ φ)
  | .receive regress =>
      match state.decoded, state.incoming with
      | [], buf :: incoming =>
          match handleFrame .unlimited state.connection buf with
          -- Undefined behaviour of the decoder has no next state.
          | .error _ => none
          | .ok (connection, effect) =>
              let received :=
                { state with
                  connection, incoming, decoded := events effect }
              some (match effect with
                | .keepalive true => received.ping deployment regress
                | _ => received)
      | _, _ => none
  | .handle =>
      match state.decoded with
      | [] => none
      | event :: decoded =>
          { state with decoded }.move deployment
            (.post {
              ev := event
              sourceId := deployment.source
              sinks := deployment.sinks })
  | .dispatch label =>
      if unattended deployment.followed state.dispatcher label then
        state.move deployment label
      else none
  | .callBatch environment elapsed =>
      match state.dispatcher.phase with
      | .dispatching _ batch position _ =>
          if position = deployment.followed then
            let applied :=
              Sink.callBatch environment deployment.mappings batch.events
            { state with records := state.records.after applied }.move
              deployment
              (.attempt
                (if applied.returned then .returned () else .threw elapsed))
          else none
      | _ => none
  | .ping regress => some (state.ping deployment regress)
  | .restart packets =>
      some {
        incoming := packets.map Packet.encode
        start := state.slot
        slot := state.slot
        records := state.records }

/-- The first process, before it has connected. -/
def State.initial (log : Log) (records : Records φ) : State σ φ where
  start := log.origin
  slot := log.origin
  records := records

/-- The server sends well-formed frames with transactions behind the position
of the slot, the embedding is deterministic, and no write reports failure. -/
def Permitted
    (embed : String → List φ)
    (log : Log)
    (state : State σ φ) : Label σ φ → Prop
  | .callBatch environment _ => Answers embed environment
  | .restart packets =>
      (∀ packet ∈ packets, packet.Valid) ∧
        served [] packets <+: (log.stream.after state.slot).events
  | _ => True

/-! ## The invariant -/

/-- Number of events the followed sink has finished on this connection. -/
def finished (deployment : Deployment σ) (state : State σ φ) : Nat :=
  (completedJobs deployment.followed state.dispatcher.trace).length

/-- What was posted, what is decoded and what the frames on their way carry is
what the server has to send, in order. -/
def Receiving (log : Log) (state : State σ φ) : Prop :=
  ∃ history packets,
    Agrees state.connection.parser history ∧
    state.incoming = packets.map Packet.encode ∧
    (∀ packet ∈ packets, packet.Valid) ∧
    postedEvents state.dispatcher.trace ++ state.decoded ++
      served history packets <+: (log.stream.after state.start).events

/-- A batch the sink at an index has returned for is finished. -/
def ReturnedFinished (index : Nat) (trace : List (Output σ ρ)) : Prop :=
  ∀ batch report, Output.called index batch (.returned report) ∈ trace →
    batch.first + batch.jobs.length ≤ (completedJobs index trace).length

/-- The table converges to the final one from what the sink has finished. -/
def Converging
    (embed : String → List φ)
    (deployment : Deployment σ)
    (log : Log)
    (initial : Records φ)
    (state : State σ φ) : Prop :=
  ∃ frontier,
    Recovery.Recovers embed deployment.mappings log.stream.events
      (initial.performAll embed
        (plan deployment.mappings log.stream.events))
      { records := state.records
        position := log.stream.passed state.start + finished deployment state
        frontier }

/-- The invariant of the daemon over all its processes. -/
structure Consistent
    (embed : String → List φ)
    (deployment : Deployment σ)
    (log : Log)
    (initial : Records φ)
    (state : State σ φ) : Prop where
  sound : Sound deployment.settings deployment.sinks state.dispatcher
  confirmable : Confirmable (log.streams deployment.source state.start)
    deployment.sinks state.dispatcher
  own : ∀ job ∈ posted state.dispatcher.trace,
    job.sourceId = deployment.source
  receiving : Receiving log state
  returned :
    ReturnedFinished deployment.followed state.dispatcher.trace
  converging : Converging embed deployment log initial state
  slot : log.stream.passed state.slot ≤
    log.stream.passed state.start + finished deployment state

section Steps

variable {ρ : Type}
variable {embed : String → List φ}
variable {deployment : Deployment σ}
variable {log : Log}
variable {initial : Records φ}
variable {state next : State σ φ}

theorem ReturnedFinished.apart
    {index : Nat}
    {trace outputs : List (Output σ ρ)}
    (returned : ReturnedFinished index trace)
    (apart : Apart index outputs) :
    ReturnedFinished index (trace ++ outputs) := by
  intro batch report called
  rcases List.mem_append.mp called with earlier | new
  · rw [completedJobs_append, apart.1, List.append_nil]
    exact returned batch report earlier
  · exact absurd new (apart.2 batch report)

/-- A required sink has finished everything behind a point up to which all is
delivered. -/
theorem le_completed_of_delivered
    {sinks : List (SinkHandle σ)}
    {trace : List (Output σ ρ)}
    {index frontier : Nat}
    {handle : SinkHandle σ}
    (returned : ReturnedFinished index trace)
    (present : sinks[index]? = some handle)
    (required : handle.required = true)
    (delivered : ∀ position < frontier, Delivered sinks trace position) :
    frontier ≤ (completedJobs index trace).length := by
  cases frontier with
  | zero => exact Nat.zero_le _
  | succ last =>
      obtain ⟨batch, _, _, inside, _, accepted⟩ := delivered last (by omega)
      obtain ⟨report, called⟩ := accepted index handle present required
      have bound := returned batch report called
      omega

/-- The position a status update reports has no event before it that the
followed sink has not finished. -/
theorem Consistent.passed_reported_le
    (consistent : Consistent embed deployment log initial state) :
    log.stream.passed (pingUpdate (fun _ => state.start) deployment.source
      state.dispatcher.trace) ≤
        log.stream.passed state.start + finished deployment state := by
  rw [pingUpdate_eq]
  cases last : lastConfirmed deployment.source state.dispatcher.trace with
  | none => exact Nat.le_add_right _ _
  | some lsn =>
      obtain ⟨frontier, _, delivered, past⟩ :=
        consistent.confirmable.covered deployment.source lsn last
      obtain ⟨handle, present, required⟩ := deployment.required
      have done := le_completed_of_delivered consistent.returned present
        required delivered
      refine log.stream.passed_le fun index transaction owned committed => ?_
      have ranked := past index transaction
        (by simpa [Log.streams] using owned) committed
      have few : rank deployment.source (posted state.dispatcher.trace)
          frontier ≤ frontier :=
        List.countP_le_length.trans (List.length_take_le _ _)
      exact Nat.lt_of_lt_of_le ranked (few.trans done)

theorem Consistent.ping
    (consistent : Consistent embed deployment log initial state)
    (regress : Bool) :
    Consistent embed deployment log initial
      (state.ping deployment regress) where
  sound := consistent.sound
  confirmable := consistent.confirmable
  own := consistent.own
  receiving := consistent.receiving
  returned := consistent.returned
  converging := consistent.converging
  slot := by
    have reported := consistent.passed_reported_le
    have held := consistent.slot
    cases regress with
    | true => exact reported
    | false =>
        show log.stream.passed (max _ _) ≤
          log.stream.passed state.start + finished deployment state
        rcases max_choice state.slot (pingUpdate (fun _ => state.start)
          deployment.source state.dispatcher.trace) with kept | raised
        · rwa [kept]
        · rwa [raised]

theorem Log.streams_markers
    (log : Log)
    (source : SourceId)
    (start : Nat) :
    ∀ other, ∀ transaction ∈ (log.streams source start other).transactions,
      transaction.MarkerOnly := by
  intro other transaction member
  unfold Log.streams at member
  split at member
  · exact log.markers transaction (List.mem_of_mem_filter member)
  · cases member

/-- A step of the dispatcher that follows the streams keeps what is known of
the dispatcher. -/
theorem Consistent.move
    (consistent : Consistent embed deployment log initial state)
    {label : Dispatcher.Label σ Unit}
    {dispatcher : Dispatcher.State σ Unit}
    (follows : Follows (log.streams deployment.source state.start)
      deployment.sinks state.dispatcher label)
    (taken : Dispatcher.step deployment.settings state.dispatcher label =
      some dispatcher) :
    Sound deployment.settings deployment.sinks dispatcher ∧
      Confirmable (log.streams deployment.source state.start)
        deployment.sinks dispatcher := by
  refine ⟨step_sound consistent.sound ⟨follows.sharesSinks, ?_⟩ taken,
    step_confirmable (log.streams_markers _ _) consistent.sound
      consistent.confirmable follows taken⟩
  intro stalls
  exact absurd deployment.installed (by simp [stalls.1])

theorem step_receive
    (consistent : Consistent embed deployment log initial state)
    {regress : Bool}
    (taken : step deployment state (.receive regress) = some next) :
    Consistent embed deployment log initial next := by
  simp only [step] at taken
  split at taken
  · rename_i buf incoming decoded waiting
    obtain ⟨history, packets, agrees, encoded, valid, sent⟩ :=
      consistent.receiving
    rw [waiting] at encoded
    cases packets with
    | nil => cases encoded
    | cons packet packets =>
        obtain ⟨rfl, rfl⟩ := List.cons_eq_cons.mp encoded
        obtain ⟨connection, handled, after⟩ :=
          handleFrame_packet agrees (valid packet List.mem_cons_self)
        simp only [handled, Option.some_inj] at taken
        have received : Consistent embed deployment log initial
            { state with
              connection
              incoming := packets.map Packet.encode
              decoded := events (packet.denotes history) } :=
          { consistent with
            receiving := by
              refine ⟨packet.extend history, packets, after, rfl,
                fun other member =>
                  valid other (List.mem_cons_of_mem packet member), ?_⟩
              simpa [decoded, served] using sent }
        split at taken
        · exact taken ▸ received.ping regress
        · exact taken ▸ received
  · cases taken

theorem postedBy_own
    {source : SourceId}
    {trace : List (Output σ ρ)}
    (own : ∀ job ∈ posted trace, job.sourceId = source) :
    postedBy source (posted trace) = postedEvents trace := by
  rw [postedBy, postedEvents, List.filter_eq_self.mpr]
  intro job member
  exact decide_eq_true (own job member)

/-- The dispatcher has taken over the first decoded events, if any, and the
followed sink was left alone. -/
theorem Consistent.advance
    (consistent : Consistent embed deployment log initial state)
    {dispatcher : Dispatcher.State σ Unit}
    {decoded : List ChangeEvent}
    {outputs : List (Output σ Unit)}
    (known : Sound deployment.settings deployment.sinks dispatcher ∧
      Confirmable (log.streams deployment.source state.start)
        deployment.sinks dispatcher)
    (trace : dispatcher.trace = state.dispatcher.trace ++ outputs)
    (apart : Apart deployment.followed outputs)
    (own : ∀ job ∈ posted outputs, job.sourceId = deployment.source)
    (waiting :
      state.decoded = (posted outputs).map EventJob.ev ++ decoded) :
    Consistent embed deployment log initial
      { state with dispatcher, decoded } := by
  have same : finished deployment { state with dispatcher, decoded } =
      finished deployment state := by
    simp [finished, trace, apart.1]
  refine ⟨known.1, known.2, ?_, ?_, ?_, ?_, ?_⟩
  · intro job member
    rw [trace, posted_append] at member
    rcases List.mem_append.mp member with earlier | new
    · exact consistent.own job earlier
    · exact own job new
  · obtain ⟨history, packets, agrees, encoded, valid, sent⟩ :=
      consistent.receiving
    refine ⟨history, packets, agrees, encoded, valid, ?_⟩
    simpa [postedEvents, trace, waiting] using sent
  · rw [trace]
    exact consistent.returned.apart apart
  · obtain ⟨frontier, recovers⟩ := consistent.converging
    exact ⟨frontier, by rwa [same]⟩
  · rw [same]
    exact consistent.slot

theorem step_handle
    (consistent : Consistent embed deployment log initial state)
    (taken : step deployment state .handle = some next) :
    Consistent embed deployment log initial next := by
  simp only [step] at taken
  split at taken
  · cases taken
  · rename_i event decoded waiting
    obtain ⟨dispatcher, posting, rfl⟩ := Option.map_eq_some_iff.mp taken
    obtain ⟨_, _, _, _, _, sent⟩ := consistent.receiving
    rw [waiting, List.append_assoc, List.cons_append, List.append_cons]
      at sent
    have known := consistent.move
      (by
        refine ⟨rfl, ?_⟩
        rw [postedBy_own consistent.own]
        simpa [Log.streams] using (List.prefix_append _ _).trans sent)
      posting
    cases moves_of_step posting with
    | post job running =>
        exact consistent.advance known rfl (by simp [Apart]) (by simp)
          waiting

theorem elsewhere_of_unattended
    {followed : Nat}
    {state : Dispatcher.State σ Unit}
    {label : Dispatcher.Label σ Unit}
    (free : unattended followed state label = true) :
    (∀ outcome caller batch backoff, label = .attempt outcome →
      state.phase ≠ .dispatching caller batch followed backoff) ∧
      ∀ job, label ≠ .post job := by
  constructor
  · rintro outcome caller batch backoff rfl phase
    simp [unattended, phase] at free
  · rintro job rfl
    cases free

theorem step_dispatch
    (consistent : Consistent embed deployment log initial state)
    {label : Dispatcher.Label σ Unit}
    (taken : step deployment state (.dispatch label) = some next) :
    Consistent embed deployment log initial next := by
  simp only [step] at taken
  split at taken <;> rename_i free
  · obtain ⟨dispatcher, moved, rfl⟩ := Option.map_eq_some_iff.mp taken
    obtain ⟨elsewhere, noPost⟩ := elsewhere_of_unattended free
    obtain ⟨outputs, trace, apart⟩ := step_apart elsewhere moved
    obtain ⟨others, otherTrace, attributed, _⟩ := step_observed moved
    have silent : posted outputs = [] := by
      rw [List.append_cancel_left (trace.symm.trans otherTrace)]
      exact posted_eq_nil attributed noPost
    have known := consistent.move
      (by
        cases label with
        | post job => exact absurd rfl (noPost job)
        | _ => trivial)
      moved
    exact consistent.advance known trace apart (by simp [silent])
      (by simp [silent])
  · cases taken

/-- The batch at hand is the next stretch of the log. -/
theorem Consistent.batch_events
    (consistent : Consistent embed deployment log initial state)
    {batch : Batch σ}
    (opened : OpenBatch deployment.sinks state.dispatcher.trace batch
      deployment.followed) :
    finished deployment state = batch.first ∧
      (log.stream.events.drop (log.stream.passed state.start +
        finished deployment state)).take batch.jobs.length =
          batch.events := by
  obtain ⟨handle, present, _⟩ := deployment.required
  have inside := (List.getElem?_eq_some_iff.mp present).1
  have first : finished deployment state = batch.first := by
    rw [finished, opened.todo _ inside le_rfl, List.length_take]
    exact Nat.min_eq_left opened.first_le
  refine ⟨first, ?_⟩
  obtain ⟨_, _, _, _, _, sent⟩ := consistent.receiving
  have dequeued : (dequeued state.dispatcher.trace).map EventJob.ev <+:
      (log.stream.after state.start).events := by
    refine List.IsPrefix.trans ?_ sent
    rw [postedEvents, consistent.sound.core.queue, List.map_append,
      List.append_assoc, List.append_assoc]
    exact List.prefix_append _ _
  obtain ⟨rest, whole⟩ := dequeued
  have length := congrArg List.length opened.jobs_eq
  rw [List.length_drop] at length
  rw [first, ← List.drop_drop, log.stream.drop_passed, ← whole,
    List.drop_append_of_le_length (by simpa using opened.first_le),
    ← List.map_drop, opened.jobs_eq]
  exact List.take_left' (List.length_map _)

/-- The followed sink has been called. -/
theorem Consistent.called
    (consistent : Consistent embed deployment log initial state)
    {dispatcher : Dispatcher.State σ Unit}
    {records : Records φ}
    {outputs : List (Output σ Unit)}
    (known : Sound deployment.settings deployment.sinks dispatcher ∧
      Confirmable (log.streams deployment.source state.start)
        deployment.sinks dispatcher)
    (trace : dispatcher.trace = state.dispatcher.trace ++ outputs)
    (silent : posted outputs = [])
    (returned : ReturnedFinished deployment.followed dispatcher.trace)
    (converging : Converging embed deployment log initial
      { state with dispatcher, records }) :
    Consistent embed deployment log initial
      { state with dispatcher, records } where
  sound := known.1
  confirmable := known.2
  own := by
    simpa [trace, silent] using consistent.own
  receiving := by
    obtain ⟨history, packets, agrees, encoded, valid, sent⟩ :=
      consistent.receiving
    refine ⟨history, packets, agrees, encoded, valid, ?_⟩
    simpa [postedEvents, trace, silent] using sent
  returned := returned
  converging := converging
  slot := by
    refine consistent.slot.trans (Nat.add_le_add_left ?_ _)
    simp [finished, trace]

/-- Calling the sink with the next stretch of the log keeps the table
converging, from behind the stretch if the call returned. -/
theorem recovers_attempt
    (filled : ∀ text, embed text ≠ [])
    {mappings : List TableMapping}
    {history batch : List ChangeEvent}
    {final records : Records φ}
    {position frontier size : Nat}
    {environment : Environment φ}
    (recovers : Recovery.Recovers embed mappings history final
      ⟨records, position, frontier⟩)
    (answers : Answers embed environment)
    (stretch : (history.drop position).take size = batch) :
    ∃ reached, Recovery.Recovers embed mappings history final
      { records :=
          records.after (Sink.callBatch environment mappings batch)
        position :=
          if (Sink.callBatch environment mappings batch).returned then
            position + batch.length
          else position
        frontier := reached } := by
  let attempt : Recovery.Label φ := .attempt size environment
  have faithful : Recovery.Faithful embed ⟨records, position, frontier⟩
      attempt := answers
  cases returned : (Sink.callBatch environment mappings batch).returned with
  | true =>
      exact ⟨_, Recovery.step_recovers filled recovers faithful
        (by simp only [attempt, Recovery.step, stretch, returned, if_true]
            rfl)⟩
  | false =>
      exact ⟨_, Recovery.step_recovers filled recovers faithful
        (by simp only [attempt, Recovery.step, stretch, returned,
              Bool.false_eq_true, if_false]
            rfl)⟩

theorem step_callBatch
    (filled : ∀ text, embed text ≠ [])
    (consistent : Consistent embed deployment log initial state)
    {environment : Environment φ}
    {elapsed : Nat}
    (answers : Answers embed environment)
    (taken : step deployment state (.callBatch environment elapsed) =
      some next) :
    Consistent embed deployment log initial next := by
  simp only [step] at taken
  split at taken
  · rename_i caller batch position backoff phase
    split at taken <;> rename_i here
    · subst here
      obtain ⟨dispatcher, moved, rfl⟩ := Option.map_eq_some_iff.mp taken
      have known := consistent.move (by exact trivial) moved
      have standing := consistent.sound.phase
      simp only [PhaseSound, phase] at standing
      obtain ⟨_, shared, _, _, opened⟩ := standing
      obtain ⟨handle, present, required⟩ := deployment.required
      rw [← shared] at present
      obtain ⟨first, stretch⟩ := consistent.batch_events opened
      obtain ⟨frontier, recovers⟩ := consistent.converging
      obtain ⟨reached, after⟩ :=
        recovers_attempt filled recovers answers stretch
      have size : batch.events.length = batch.jobs.length :=
        List.length_map _
      cases returned : (Sink.callBatch environment deployment.mappings
          batch.events).returned with
      | true =>
          simp only [returned, if_true] at moved after
          have trace := attempt_observed phase present required moved
          have done : (completedJobs deployment.followed
              dispatcher.trace).length =
                finished deployment state + batch.jobs.length := by
            simp [trace, finished, completedJobs]
          refine consistent.called known trace rfl ?_ ⟨reached, ?_⟩
          · intro other report member
            rw [done]
            rw [trace] at member
            rcases List.mem_append.mp member with earlier | new
            · exact (consistent.returned other report earlier).trans
                (Nat.le_add_right _ _)
            · have same : other = batch := by simpa using new
              rw [same, first]
          · rw [size, Nat.add_assoc, ← done] at after
            exact after
      | false =>
          simp only [returned, Bool.false_eq_true, if_false] at moved after
          obtain ⟨outputs, trace, silent, apart⟩ :=
            attempt_observed phase present required moved
          have done : (completedJobs deployment.followed
              dispatcher.trace).length = finished deployment state := by
            simp [trace, finished, apart.1]
          refine consistent.called known trace silent ?_ ⟨reached, ?_⟩
          · rw [trace]
            exact consistent.returned.apart apart
          · rw [← done] at after
            exact after
    · cases taken
  · cases taken

/-- A new process connects where the slot stands, which the table has
passed. -/
theorem step_restart
    (filled : ∀ text, embed text ≠ [])
    (consistent : Consistent embed deployment log initial state)
    {packets : List Packet}
    (permitted : Permitted embed log state (.restart packets))
    (taken : step deployment state (.restart packets) = some next) :
    Consistent embed deployment log initial next := by
  cases taken
  obtain ⟨frontier, recovers⟩ := consistent.converging
  let restart : Recovery.Label φ := .restart (log.stream.passed state.slot)
  have early : log.stream.passed state.slot ≤ frontier :=
    consistent.slot.trans recovers.reached
  have faithful : Recovery.Faithful embed ⟨state.records,
      log.stream.passed state.start + finished deployment state, frontier⟩
      restart := trivial
  exact {
    sound := initial_sound
    confirmable := ⟨fun _ => List.nil_prefix, by
      intro source lsn last
      cases last⟩
    own := by
      intro job member
      cases member
    receiving := ⟨[], packets, agrees_initial, rfl, permitted.1,
      permitted.2⟩
    returned := by
      intro batch report called
      cases called
    converging := ⟨_, Recovery.step_recovers filled recovers faithful
      (if_pos early)⟩
    slot := Nat.le_add_right _ _ }

/-- Every step keeps the invariant. -/
theorem step_consistent
    (filled : ∀ text, embed text ≠ [])
    (consistent : Consistent embed deployment log initial state)
    {label : Label σ φ}
    (permitted : Permitted embed log state label)
    (taken : step deployment state label = some next) :
    Consistent embed deployment log initial next := by
  cases label with
  | receive regress => exact step_receive consistent taken
  | handle => exact step_handle consistent taken
  | dispatch label => exact step_dispatch consistent taken
  | callBatch environment elapsed =>
      exact step_callBatch filled consistent permitted taken
  | ping regress =>
      cases taken
      exact consistent.ping regress
  | restart packets => exact step_restart filled consistent permitted taken

theorem Log.passed_origin (log : Log) :
    log.stream.passed log.origin = 0 := by
  have unread : log.stream.upTo log.origin = [] := by
    rw [Stream.upTo, List.filter_eq_nil_iff]
    intro transaction member
    simpa using log.later transaction member
  simp [Stream.passed, unread]

/-- The invariant holds before the first process connects. -/
theorem initial_consistent
    (embed : String → List φ)
    (deployment : Deployment σ)
    (log : Log)
    (initial : Records φ) :
    Consistent embed deployment log initial (State.initial log initial) where
  sound := initial_sound
  confirmable := ⟨fun _ => List.nil_prefix, by
    intro source lsn last
    cases last⟩
  own := by
    intro job member
    cases member
  receiving := ⟨[], [], agrees_initial, rfl, by simp, List.nil_prefix⟩
  returned := by
    intro batch report called
    cases called
  converging := by
    refine ⟨0, ?_⟩
    show Recovery.Recovers _ _ _ _
      ⟨initial, log.stream.passed log.origin + 0, 0⟩
    rw [log.passed_origin]
    exact Recovery.recovers_initial embed deployment.mappings
      log.stream.events initial
  slot := Nat.le_add_right _ _

theorem consistent_of_reachable
    (filled : ∀ text, embed text ≠ [])
    (reachable : Transition.Reachable (step deployment) (Permitted embed log)
      (State.initial log initial) state) :
    Consistent embed deployment log initial state :=
  reachable.invariant (Consistent embed deployment log initial)
    (initial_consistent embed deployment log initial)
    fun _ _ _ consistent permitted taken =>
      step_consistent filled consistent permitted taken

end Steps

/-! ## Crashes are survived -/

/-- Once the sink has finished what its connection had to send, it has the ids
and texts of the source table, as long as no row changes its id. -/
theorem agrees_of_caughtUp
    (embed : String → List φ)
    (filled : ∀ text, embed text ≠ [])
    (deployment : Deployment σ)
    (log : Log)
    {tm : TableMapping}
    (mapped : deployment.mappings.find? (fun other =>
      other.sourceTable = tm.sourceTable) = some tm)
    {table : Live.Texts}
    {history : List (Live.Change × ChangeEvent)}
    (sent : log.stream.events = history.map Prod.snd)
    (follows : Live.Follows tm table history)
    (keeps : ∀ entry ∈ history, entry.1.KeepsId)
    {initial : Records φ}
    (agrees : Live.Agrees tm initial table)
    {state : State σ φ}
    (reachable : Transition.Reachable (step deployment) (Permitted embed log)
      (State.initial log initial) state)
    (caughtUp : completedEvents deployment.followed state.dispatcher.trace =
      (log.stream.after state.start).events) :
    Live.Agrees tm state.records (Live.tableAfter table history) := by
  have consistent := consistent_of_reachable filled reachable
  obtain ⟨frontier, recovers⟩ := consistent.converging
  have complete : log.stream.events.length ≤ frontier := by
    refine Nat.le_trans ?_ recovers.reached
    have length := congrArg List.length caughtUp
    rw [completedEvents, List.length_map, ← log.stream.drop_passed,
      List.length_drop] at length
    show _ ≤ log.stream.passed state.start + finished deployment state
    unfold finished
    omega
  have final : state.records = initial.performAll embed
      (plan deployment.mappings log.stream.events) :=
    recovers.converges.eq_final complete
  intro id
  rw [final, sent]
  exact Live.agreesAt_of_settled mapped follows
    (Live.settled_of_keepsId tm id keeps) (.inl (agrees id))

/-! ## A sample of two processes -/

/-- The relation `docs` with an id and a body. -/
def sampleLayout : RelationLayout where
  oid := 16401
  schema := "public".toList.map tag
  table := "docs".toList.map tag
  replicaIdentity := tag 'd'
  columns := [⟨1, "id".toList.map tag, 23, 0⟩,
    ⟨0, "body".toList.map tag, 25, 0⟩]

/-- A transaction on the wire: the relation is described, one row changes. -/
def samplePackets (change : Message) (lsn commit : Nat) : List Packet :=
  [.xlogData ⟨lsn, lsn, 0, .begin commit 7 900⟩,
    .xlogData ⟨lsn, lsn, 0, .relation sampleLayout⟩,
    .keepalive lsn 0 1,
    .xlogData ⟨lsn, lsn, 0, change⟩,
    .xlogData ⟨commit, commit, 0, .commit 0 commit commit 7⟩]

def sampleInsert : Message :=
  .insert 16401 [.text [tag '1'], .text [tag 'a']]

def sampleUpdate : Message :=
  .update 16401 none [.text [tag '1'], .text [tag 'b', tag 'b']]

/-- The transaction of a row change. -/
def sampleTransaction (op : Op) (row : DecodedRow) (lsn commit : Nat)
    (ordered : lsn < commit) : Transaction where
  changes := [{
    op
    schemaName := "public"
    tableName := "docs"
    newRow := some row
    commitLsn := lsn
    commitTimestamp := 946684800000007 }]
  marker := {
    op := .commit
    commitLsn := commit
    commitTimestamp := 946684800000007 }
  marker_op := rfl
  bounded := by simpa using Nat.le_of_lt ordered

def sampleRow (kind : TupleKind) (body : String) : DecodedRow where
  schemaName := "public"
  tableName := "docs"
  kind := kind
  columns := [{ name := "id", textValue := "1" },
    { name := "body", textValue := body }]

def sampleLog : Log where
  origin := 5
  stream := ⟨[sampleTransaction .insert (sampleRow .insert "a") 10 20
      (by decide),
    sampleTransaction .update (sampleRow .updateNew "bb") 30 40
      (by decide)], by simp [sampleTransaction, Transaction.commitLsn]⟩
  later := by simp [sampleTransaction, Transaction.commitLsn]
  markers := by
    simp [sampleTransaction, Transaction.commitLsn, Transaction.MarkerOnly]

/-- One required pgvector sink. -/
def sampleDeployment : Deployment Target where
  settings := { maxBatchSize := 2 }
  source := 7
  sinks := sampleSinks
  followed := 0
  mappings := [docsMapping]
  installed := rfl
  required := ⟨_, rfl, rfl⟩

/-- The first process confirms the first transaction and ends while the second
one is being written; the second process gets that transaction again. -/
def sampleRuns : List (Label Target Nat) :=
  [.restart (samplePackets sampleInsert 10 20 ++
      samplePackets sampleUpdate 30 40)] ++
    deliver (steady sampleEmbed) ++
    [.dispatch (.confirm 7), .ping false] ++
    deliver (Recovery.cutOff 0) ++
    [.restart (samplePackets sampleUpdate 30 40)] ++
    deliver (steady sampleEmbed)
where
  deliver (environment : Environment Nat) : List (Label Target Nat) :=
    [.receive false, .receive false, .receive false, .receive false,
      .handle, .receive false, .handle, .dispatch .checkRunning,
      .dispatch (.wait true 0), .dispatch (.collect 0 true),
      .dispatch (.collect 0 true), .callBatch environment 0]

theorem samplePackets_valid
    {change : Message}
    {lsn commit : Nat}
    (valid : change.Valid)
    (lsnBound : lsn < 2 ^ 64)
    (commitBound : commit < 2 ^ 64) :
    ∀ packet ∈ samplePackets change lsn commit, packet.Valid := by
  have layout : sampleLayout.Valid := by
    refine ⟨by decide, by unfold NameValid; decide,
      by unfold NameValid; decide, by decide, ?_⟩
    simp only [sampleLayout, List.mem_cons, List.not_mem_nil, or_false]
    rintro column (rfl | rfl)
    · exact ⟨by unfold NameValid; decide, by decide, by decide⟩
    · exact ⟨by unfold NameValid; decide, by decide, by decide⟩
  simp only [samplePackets, List.forall_mem_cons]
  have zero := Nat.two_pow_pos 64
  exact ⟨⟨lsnBound, lsnBound, zero, commitBound, by decide, by decide⟩,
    ⟨lsnBound, lsnBound, zero, layout⟩, ⟨lsnBound, zero⟩,
    ⟨lsnBound, lsnBound, zero, valid⟩,
    ⟨commitBound, commitBound, zero, commitBound, commitBound, by decide⟩,
    by simp⟩

/-- The part of the permission that depends on the state. -/
def serves (log : Log) (state : State σ φ) : Label σ φ → Bool
  | .restart packets =>
      decide (served [] packets <+: (log.stream.after state.slot).events)
  | _ => true

theorem deliver_permitted
    {environment : Environment Nat}
    (answers : Answers sampleEmbed environment)
    (state : State Target Nat) :
    ∀ label ∈ sampleRuns.deliver environment,
      Permitted sampleEmbed sampleLog state label := by
  simp only [sampleRuns.deliver, List.forall_mem_cons]
  exact ⟨trivial, trivial, trivial, trivial, trivial, trivial, trivial,
    trivial, trivial, trivial, trivial, answers, by simp⟩

theorem sampleRuns_permitted (state : State Target Nat) :
    ∀ label ∈ sampleRuns, serves sampleLog state label = true →
      Permitted sampleEmbed sampleLog state label := by
  have insert := samplePackets_valid
    (show sampleInsert.Valid from
      ⟨by decide, by decide, by simp [Field.Valid]⟩)
    (show 10 < 2 ^ 64 by decide) (show 20 < 2 ^ 64 by decide)
  have update := samplePackets_valid
    (show sampleUpdate.Valid from
      ⟨by decide, by simp, by decide, by simp [Field.Valid]⟩)
    (show 30 < 2 ^ 64 by decide) (show 40 < 2 ^ 64 by decide)
  have delivered := fun environment answers label member =>
    fun (_ : serves sampleLog state label = true) =>
      @deliver_permitted environment answers state label member
  have steadily := delivered _ (answers_steady sampleEmbed)
  simp only [sampleRuns, List.forall_mem_append, List.forall_mem_singleton,
    List.forall_mem_cons]
  refine ⟨⟨⟨⟨⟨fun serving => ?_, steadily⟩, by simp [Permitted]⟩,
    delivered _ (Recovery.answers_cutOff 0)⟩, fun serving => ?_⟩, steadily⟩
  · exact ⟨List.forall_mem_append.mpr ⟨insert, update⟩,
      of_decide_eq_true serving⟩
  · exact ⟨update, of_decide_eq_true serving⟩

/-- The second process has written the text of the second transaction. -/
theorem exists_reachable_sampleRuns :
    ∃ state : State Target Nat,
      Transition.Reachable (step sampleDeployment)
        (Permitted sampleEmbed sampleLog)
        (State.initial sampleLog fun _ => none) state ∧
      state.slot = 20 ∧
      completedEvents 0 state.dispatcher.trace =
        (sampleLog.stream.after state.start).events := by
  obtain ⟨state, reachable, final⟩ := Transition.exists_reachable_of_checked
    (Permitted sampleEmbed sampleLog)
    (fun state label => serves sampleLog state label = true) sampleRuns
    sampleRuns_permitted
    (show (Transition.run (Transition.guarded (step sampleDeployment)
        fun state label => serves sampleLog state label = true)
        (State.initial sampleLog fun _ => none) sampleRuns).any
      (fun state => state.slot = 20 ∧
        completedEvents 0 state.dispatcher.trace =
          (sampleLog.stream.after state.start).events) = true by decide)
  exact ⟨state, reachable, by simpa using final⟩

/-- The table behind the sample log. -/
def sampleHistory : List (Live.Change × ChangeEvent) :=
  [.insert "1" "a", .commit, .update "1" "1" "bb", .commit].zip
    sampleLog.stream.events

/-- The second process leaves the text of the second transaction. -/
theorem agrees_sampleRuns :
    ∃ state : State Target Nat,
      Transition.Reachable (step sampleDeployment)
        (Permitted sampleEmbed sampleLog)
        (State.initial sampleLog fun _ => none) state ∧
      Live.Agrees docsMapping state.records
        (Live.tableAfter (fun _ => none) sampleHistory) ∧
      Live.tableAfter (fun _ => none) sampleHistory "1" = some "bb" := by
  obtain ⟨state, reachable, _, caughtUp⟩ := exists_reachable_sampleRuns
  have empty : Live.Agrees docsMapping (fun _ => none : Records Nat)
      (fun _ => none) := fun _ => rfl
  refine ⟨state, reachable, agrees_of_caughtUp sampleEmbed
    (by simp [sampleEmbed]) sampleDeployment sampleLog (by decide) rfl ?_ ?_
    empty reachable caughtUp, rfl⟩
  · exact ⟨by decide, ⟨.default, rfl, rfl, _, rfl, rfl, .inl ⟨rfl, rfl⟩⟩,
      trivial, ⟨.default, rfl⟩, by decide,
      ⟨.default, rfl, rfl, ⟨_, rfl, rfl, .inl ⟨rfl, rfl⟩⟩, "a", rfl, rfl,
        rfl⟩, trivial, ⟨.default, rfl⟩, trivial⟩
  · simp [sampleHistory, sampleLog, Stream.events, Transaction.events,
      sampleTransaction, Live.Change.KeepsId]

end Pipeline
end Walkrie
