import Walkrie.Dispatcher.Trace
import Walkrie.Queue.Handover

/-!
# The dispatcher over its real queue

The machine of the dispatcher has a list for its queue, and a call on it is
one step.  Here the list is replaced by the blocking queue, with the steps of
the posting thread and of the worker in any order: a job is posted where the
semaphore is raised for it, and a call on the queue ends where it is
answered.  Every step then is a step of the machine with the list, or changes
nothing that it knows of.  `post_job` does not look at what `enqueue`
answers, so a job for which there is no memory is not posted.
-/

namespace Walkrie
namespace Dispatcher

variable {σ ρ : Type}

/-! ## Steps that do not depend on the queue -/

/-- The state with another queue. -/
def State.withQueue (state : State σ ρ) (queue : List (EventJob σ)) :
    State σ ρ :=
  { state with queue }

namespace State

variable (settings : Settings)
variable (state : State σ ρ)
variable (queue : List (EventJob σ))

theorem withQueue_emit (outputs : List (Output σ ρ)) :
    (state.withQueue queue).emit outputs =
      (state.emit outputs).withQueue queue :=
  rfl

theorem withQueue_resume (caller : Caller) (batch : Batch σ) :
    (state.withQueue queue).resume caller batch =
      (state.resume caller batch).withQueue queue := by
  cases caller <;> rfl

theorem withQueue_notifyConfirmed (caller : Caller) (batch : Batch σ) :
    (state.withQueue queue).notifyConfirmed settings caller batch =
      (state.notifyConfirmed settings caller batch).withQueue queue := by
  unfold notifyConfirmed
  split
  · exact withQueue_resume state queue caller batch
  · rfl

theorem withQueue_nextSink
    (caller : Caller)
    (batch : Batch σ)
    (position : Nat) :
    (state.withQueue queue).nextSink settings caller batch position =
      (state.nextSink settings caller batch position).withQueue queue := by
  unfold nextSink
  split
  · rfl
  · exact withQueue_notifyConfirmed settings state queue caller batch

theorem withQueue_dispatch (caller : Caller) (batch : Batch σ) :
    (state.withQueue queue).dispatch settings caller batch =
      (state.dispatch settings caller batch).withQueue queue :=
  withQueue_nextSink settings (state.emit [.dispatched batch]) queue caller
    batch 0

theorem withQueue_dispatchFailed (caller : Caller) :
    (state.withQueue queue).dispatchFailed settings caller =
      (state.dispatchFailed settings caller).withQueue queue := by
  have same : (state.withQueue queue).fatalTriggered =
      state.fatalTriggered := rfl
  unfold dispatchFailed
  rw [same]
  by_cases first : (!state.fatalTriggered && settings.onFatal) = true
  · simp only [if_pos first]
    cases caller <;> rfl
  · simp only [if_neg first]
    cases caller <;> rfl

end State

/-- The labels of a step that neither adds a job nor takes one. -/
def Label.local : Label σ ρ → Bool
  | .stop | .checkRunning | .wait false _ | .collect _ false | .attempt _
  | .confirm _ => true
  | .post _ | .wait true _ | .collect _ true | .tryDequeue => false

theorem step_withQueue
    (settings : Settings)
    (state : State σ ρ)
    (queue : List (EventJob σ))
    {label : Label σ ρ}
    (own : label.local = true) :
    step settings (state.withQueue queue) label =
      (step settings state label).map (·.withQueue queue) := by
  have same : (state.withQueue queue).phase = state.phase := rfl
  have running : (state.withQueue queue).running = state.running := rfl
  cases label with
  | post job => cases own
  | stop => rfl
  | checkRunning =>
      simp only [step, same, running]
      split
      · split <;> rfl
      · rfl
  | wait arrived now =>
      cases arrived
      · simp only [step, same]
        cases state.phase <;> rfl
      · cases own
  | collect now arrived =>
      cases arrived
      · simp only [step, same]
        split
        · split
          · exact congrArg some
              (State.withQueue_dispatch settings state queue _ _)
          · split <;> exact congrArg some
              (State.withQueue_dispatch settings state queue _ _)
        · rfl
      · cases own
  | attempt outcome =>
      simp only [step, same, State.withQueue_emit]
      split
      · split
        · rfl
        · split
          · exact congrArg some (State.withQueue_nextSink settings _ queue
              _ _ _)
          · rfl
          · exact congrArg some (State.withQueue_dispatchFailed settings _
              queue _)
      · rfl
  | confirm source =>
      simp only [step, same, State.withQueue_emit]
      split
      · split
        · rfl
        · split
          · exact congrArg some (State.withQueue_resume _ queue _ _)
          · rfl
      · rfl
  | tryDequeue => cases own

/-- The labels of a step that asks the queue for a job. -/
def Label.asks : Label σ ρ → Bool
  | .wait true _ | .collect _ true | .tryDequeue => true
  | _ => false

/-- A step that takes a job leaves the other jobs alone. -/
theorem step_withQueue_cons
    (settings : Settings)
    (state : State σ ρ)
    (job : EventJob σ)
    (rest : List (EventJob σ))
    {label : Label σ ρ}
    (asks : label.asks = true)
    (room : ∀ batch deadline now, state.phase = .collecting batch deadline →
      label = .collect now true →
      batch.jobs.length < settings.maxBatchSize ∧ now < deadline) :
    step settings (state.withQueue (job :: rest)) label =
      (step settings (state.withQueue [job]) label).map
        (·.withQueue rest) := by
  have same : ∀ queue, (state.withQueue queue).phase = state.phase :=
    fun _ => rfl
  have jobs : ∀ queue, (state.withQueue queue).queue = queue := fun _ => rfl
  cases label with
  | wait arrived now =>
      cases arrived
      · cases asks
      · simp only [step, same, jobs]
        cases state.phase <;> rfl
  | collect now arrived =>
      cases arrived
      · cases asks
      · simp only [step, same, jobs]
        cases phase : state.phase with
        | collecting batch deadline =>
            obtain ⟨small, early⟩ := room batch deadline now phase rfl
            simp only [if_neg (not_le.mpr small), if_neg (not_le.mpr early)]
            rfl
        | _ => rfl
  | tryDequeue =>
      simp only [step, same, jobs]
      cases state.phase with
      | draining batch =>
          dsimp only
          split
          · exact congrArg some (State.withQueue_dispatch settings
              ((state.withQueue []).emit [.dequeued job]) rest _ _)
          · rfl
      | _ => rfl
  | _ => cases asks

/-! ## What the worker leaves alone -/

/-- The destructor has not begun in between, and the queue is as it was. -/
def Keeps (state next : State σ ρ) : Prop :=
  next.running = state.running ∧ next.queue = state.queue

section Keeps

variable {settings : Settings}
variable (state : State σ ρ)

theorem keeps_resume (caller : Caller) (batch : Batch σ) :
    Keeps state (state.resume caller batch) := by
  cases caller <;> exact ⟨rfl, rfl⟩

theorem keeps_nextSink
    (caller : Caller)
    (batch : Batch σ)
    (position : Nat) :
    Keeps state (state.nextSink settings caller batch position) := by
  unfold State.nextSink State.notifyConfirmed
  split
  · exact ⟨rfl, rfl⟩
  · split
    · exact keeps_resume state caller batch
    · exact ⟨rfl, rfl⟩

theorem keeps_dispatchFailed (caller : Caller) :
    Keeps state (state.dispatchFailed settings caller) := by
  unfold State.dispatchFailed
  by_cases first : (!state.fatalTriggered && settings.onFatal) = true
  · simp only [if_pos first]
    cases caller <;> exact ⟨rfl, rfl⟩
  · simp only [if_neg first]
    cases caller <;> exact ⟨rfl, rfl⟩

end Keeps

/-- Only the posting thread clears `running_` and adds jobs. -/
theorem running_of_step
    {settings : Settings}
    {state next : State σ ρ}
    {label : Label σ ρ}
    (taken : step settings state label = some next)
    (worker : label.local = true ∧ label ≠ .stop ∨ label.asks = true) :
    next.running = state.running ∧ (state.queue = [] → next.queue = []) := by
  have keeps : ∀ {before : State σ ρ}, before.running = state.running →
      before.queue = state.queue → Keeps before next →
      next.running = state.running ∧
        (state.queue = [] → next.queue = []) := by
    intro before running queue kept
    exact ⟨kept.1.trans running, fun empty =>
      kept.2.trans (queue.trans empty)⟩
  cases moves_of_step taken with
  | post job running => simp [Label.local, Label.asks] at worker
  | stop => simp [Label.local, Label.asks] at worker
  | keepRunning phase => exact ⟨rfl, id⟩
  | leaveLoop phase stopped => exact ⟨rfl, id⟩
  | timeOut now phase => exact ⟨rfl, id⟩
  | openBatch now job rest phase queue =>
      exact ⟨rfl, fun empty => by rw [empty] at queue; cases queue⟩
  | fillBatch now batch deadline job rest phase room queue =>
      exact ⟨rfl, fun empty => by rw [empty] at queue; cases queue⟩
  | closeBatch now arrived batch deadline phase =>
      exact keeps rfl rfl
        (keeps_nextSink (state.emit [.dispatched batch]) _ batch 0)
  | complete outcome caller batch position backoff handle phase =>
      exact keeps rfl rfl (keeps_nextSink ((state.emit _).emit _) _ _ _)
  | retry => exact ⟨rfl, id⟩
  | giveUp outcome caller batch position backoff handle phase =>
      exact keeps rfl rfl (keeps_dispatchFailed ((state.emit _).emit _) _)
  | confirmLast caller batch pending entry phase =>
      exact keeps rfl rfl (keeps_resume (state.emit _) caller batch)
  | confirm => exact ⟨rfl, id⟩
  | drain batch job rest phase queue =>
      exact ⟨rfl, fun empty => by rw [empty] at queue; cases queue⟩
  | drainFull batch job rest phase queue =>
      refine ⟨?_, fun empty => by rw [empty] at queue; cases queue⟩
      exact (keeps_nextSink
        (({ state.emit [.dequeued job] with queue := rest } :
          State σ ρ).emit _) _ _ 0).1
  | drainEmpty batch phase queue empty => exact ⟨rfl, id⟩
  | drainRest batch phase queue nonempty =>
      exact keeps rfl rfl
        (keeps_nextSink (state.emit [.dispatched batch]) _ batch 0)

namespace Threaded

/-! ## The machine -/

structure State (σ ρ : Type) where
  /-- Everything but the queue, which is empty here. -/
  control : Dispatcher.State σ ρ := {}
  queue : Queue.Blocking.State (EventJob σ) :=
    Queue.Blocking.State.create 512 15
  /-- When the deadline of the batch was last compared. -/
  checked : Nat := 0

inductive Label (σ ρ : Type)
  /-- `post_job` is called. -/
  | post (job : EventJob σ)
  | produce (memory : Bool)
  /-- The destructor begins, in the posting thread. -/
  | stop
  /-- A step of the worker that has nothing to do with the queue. -/
  | work (label : Dispatcher.Label σ ρ)
  /-- The worker comes to its next call on the queue. -/
  | call (now : Nat)
  | consume (now : Nat)
  /-- The time of a wait for the kernel is up. -/
  | expire

/-- The answer of the queue, once the call has returned. -/
def answer (queue : Queue.Blocking.State (EventJob σ)) :
    Option (Option (EventJob σ)) :=
  match queue.consumer with
  | .idle =>
      match queue.trace.getLast? with
      | some (.pop job) => some (some job)
      | _ => some none
  | _ => none

/-- The step that a call on the queue is of the machine with the list. -/
def State.asked (state : State σ ρ) (now : Nat) (arrived : Bool) :
    Dispatcher.Label σ ρ :=
  match state.control.phase with
  | .waiting => .wait arrived now
  | .collecting _ _ => .collect state.checked arrived
  | _ => .tryDequeue

/-- Go on with the call, or with its answer. -/
def settle
    (settings : Settings)
    (state : State σ ρ)
    (now : Nat)
    (queue : Queue.Blocking.State (EventJob σ)) : Option (State σ ρ) :=
  match answer queue with
  | none => some { state with queue }
  | some job =>
      (Dispatcher.step settings (state.control.withQueue job.toList)
        (state.asked now job.isSome)).map fun control =>
          { state with control, queue }

/-- The outputs of a step of the posting thread. -/
def announced (queue : Queue.Blocking.State (EventJob σ)) :
    List (Output σ ρ) :=
  match queue.producer with
  | .signal job => [.posted job]
  | _ => []

/-- The worker has enough jobs, or its time for a batch is up. -/
def complete (settings : Settings) (batch : Batch σ) (deadline now : Nat) :
    Bool :=
  settings.maxBatchSize ≤ batch.jobs.length || deadline ≤ now

def step (settings : Settings) (state : State σ ρ) :
    Label σ ρ → Option (State σ ρ)
  | .post job =>
      if state.control.running then
        (Queue.Blocking.step 512 state.queue
          (.enqueue .canAlloc job)).map fun queue => { state with queue }
      else none
  | .produce memory =>
      (Queue.Blocking.step 512 state.queue (.produce memory)).map fun queue =>
        { state with
          control := state.control.emit (announced state.queue)
          queue }
  | .stop =>
      match state.queue.producer with
      | .idle =>
          (Dispatcher.step settings state.control .stop).map fun control =>
            { state with control }
      | _ => none
  | .work label =>
      match label with
      | .checkRunning | .attempt _ | .confirm _ =>
          (Dispatcher.step settings state.control label).map fun control =>
            { state with control }
      | _ => none
  | .call now =>
      match state.queue.consumer, state.control.phase with
      | .idle, .waiting =>
          (Queue.Blocking.step 512 state.queue
            (.waitDequeueTimed 200000)).map fun queue => { state with queue }
      | .idle, .collecting batch deadline =>
          if complete settings batch deadline now then
            (Dispatcher.step settings state.control
              (.collect now false)).map fun control => { state with control }
          else
            -- What is left is counted in milliseconds, and waited for in
            -- microseconds.
            let remaining := (deadline - now) / nanosPerMilli
            (Queue.Blocking.step 512 state.queue
              (.waitDequeueTimed (remaining * 1000 : Nat))).map fun queue =>
                { state with queue, checked := now }
      | .idle, .draining _ =>
          (Queue.Blocking.step 512 state.queue .tryDequeue).map fun queue =>
            { state with queue }
      | _, _ => none
  | .consume now =>
      (Queue.Blocking.step 512 state.queue .consume).bind
        (settle settings state now)
  | .expire =>
      (Queue.Blocking.step 512 state.queue .expire).map fun queue =>
        { state with queue }

/-! ## What the machine with the list sees -/

/-- The jobs that were signalled and not taken. -/
def jobs (queue : Queue.Blocking.State (EventJob σ)) : List (EventJob σ) :=
  (Fifo.pushed queue.trace).drop (Fifo.popped queue.trace).length

def State.abstract (state : State σ ρ) : Dispatcher.State σ ρ :=
  state.control.withQueue (jobs state.queue)

/-- The step of the machine with the list that a step is, if it is one. -/
def performs (settings : Settings) (state : State σ ρ) :
    Label σ ρ → Option (Dispatcher.Label σ ρ)
  | .post _ => none
  | .produce _ =>
      match state.queue.producer with
      | .signal job => some (.post job)
      | _ => none
  | .stop => some .stop
  | .work label => some label
  | .call now =>
      match state.control.phase with
      | .collecting batch deadline =>
          if complete settings batch deadline now then
            some (.collect now false)
          else none
      | _ => none
  | .consume now =>
      ((Queue.Blocking.step 512 state.queue .consume).bind answer).map
        fun job => state.asked now job.isSome
  | .expire => none

/-! ## The simulation -/

/-- Where the worker is in its own code while it is in a call on the queue. -/
def Asking (settings : Settings) (checked : Nat) : Phase σ → Prop
  | .waiting | .draining _ => True
  | .collecting batch deadline =>
      complete settings batch deadline checked = false
  | _ => False

structure Sound (settings : Settings) (unit : Nat) (state : State σ ρ) :
    Prop where
  queue : Queue.Blocking.Sound 15 unit state.queue
  empty : state.control.queue = []
  /-- The destructor does not begin while a job is being posted. -/
  posting : state.queue.producer ≠ .idle → state.control.running = true
  asking : state.queue.consumer ≠ .idle →
    Asking settings state.checked state.control.phase

variable {settings : Settings}
variable {unit : Nat}
variable {state next : State σ ρ}

theorem jobs_eq
    {queue : Queue.Blocking.State (EventJob σ)}
    {memory : Fifo.Memory (EventJob σ)}
    (legal : Fifo.Legal 0 queue.trace memory) :
    jobs queue = memory.elements :=
  legal.drop_eq

theorem jobs_congr
    {before after : Queue.Blocking.State (EventJob σ)}
    (trace : after.trace = before.trace) :
    jobs after = jobs before := by
  unfold jobs
  rw [trace]

/-- What a simulation has to show of a step. -/
def Simulates
    (settings : Settings)
    (unit : Nat)
    (state : State σ ρ)
    (label : Label σ ρ)
    (next : State σ ρ) : Prop :=
  Sound settings unit next ∧
    match performs settings state label with
    | none => next.abstract = state.abstract
    | some label =>
        Dispatcher.step settings state.abstract label = some next.abstract

theorem post_simulates
    (sound : Sound settings unit state)
    {job : EventJob σ}
    (taken : step settings state (.post job) = some next) :
    Simulates settings unit state (.post job) next := by
  simp only [step] at taken
  split at taken <;> rename_i running
  · obtain ⟨queue, entered, rfl⟩ := Option.map_eq_some_iff.mp taken
    have kept := Queue.Blocking.step_sound sound.queue entered
    simp only [Queue.Blocking.step] at entered
    split at entered
    · cases entered
      exact ⟨⟨kept, sound.empty, fun _ => running, sound.asking⟩, rfl⟩
    · cases entered
  · cases taken

theorem produce_simulates
    (sound : Sound settings unit state)
    {memory : Bool}
    (taken : step settings state (.produce memory) = some next) :
    Simulates settings unit state (.produce memory) next := by
  simp only [step] at taken
  obtain ⟨queue, produced, rfl⟩ := Option.map_eq_some_iff.mp taken
  have kept := Queue.Blocking.step_sound sound.queue produced
  obtain ⟨others, outcome⟩ := Queue.Blocking.sent_of_produce produced
  have busy : state.queue.producer ≠ .idle := by
    intro idle
    simp [Queue.Blocking.step, Queue.Blocking.produce, idle] at produced
  have running := sound.posting busy
  refine ⟨⟨kept, sound.empty, fun _ => running, fun asking =>
    sound.asking (others ▸ asking)⟩, ?_⟩
  obtain ⟨_, outer, balanced⟩ := sound.queue
  obtain ⟨_, outer', balanced'⟩ := kept
  have before := balanced.outside
  have after := balanced'.outside
  -- Nothing is posted unless the semaphore is raised.
  have silent : (∀ job, state.queue.producer ≠ .signal job) →
      performs settings state (.produce memory) = none ∧
        (announced state.queue : List (Output σ ρ)) = [] := by
    intro unsignalled
    unfold performs announced
    dsimp only
    split
    · exact absurd ‹_› (unsignalled _)
    · exact ⟨rfl, rfl⟩
  unfold State.abstract
  dsimp only
  rw [jobs_eq before, jobs_eq after]
  cases outcome with
  | silent trace unsignalled =>
      rw [trace] at after
      rw [(silent unsignalled).1, (silent unsignalled).2,
        before.unique after]
      simp [State.emit]
  | refused job trace unsignalled =>
      rw [trace] at after
      rw [(silent unsignalled).1, (silent unsignalled).2,
        before.elements_of_refuse after]
      simp [State.emit]
  | pushed job trace phase =>
      rw [trace] at after
      rw [before.elements_of_push after]
      simp only [performs, announced, phase, Dispatcher.step]
      exact if_pos running

theorem local_simulates
    {label : Dispatcher.Label σ ρ}
    (own : label.local = true)
    {control : Dispatcher.State σ ρ}
    (taken : Dispatcher.step settings state.control label = some control) :
    Dispatcher.step settings state.abstract label =
      some (State.abstract { state with control }) := by
  unfold State.abstract
  rw [step_withQueue settings state.control _ own, taken]
  rfl

theorem stop_simulates
    (sound : Sound settings unit state)
    (taken : step settings state .stop = some next) :
    Simulates settings unit state .stop next := by
  simp only [step] at taken
  split at taken <;> rename_i idle
  · obtain ⟨control, stopped, rfl⟩ := Option.map_eq_some_iff.mp taken
    refine ⟨?_, local_simulates rfl stopped⟩
    cases stopped
    exact ⟨sound.queue, sound.empty, fun busy => absurd idle busy,
      sound.asking⟩
  · cases taken

/-- A worker that is in a call on the queue does nothing else. -/
theorem not_asking_of_step
    {control after : Dispatcher.State σ ρ}
    {label : Dispatcher.Label σ ρ}
    (taken : Dispatcher.step settings control label = some after)
    (own : label.local = true)
    (apart : label ≠ .stop)
    (elsewhere : ∀ now, label ≠ .wait false now)
    (here : ∀ now, label ≠ .collect now false)
    (checked : Nat) :
    ¬Asking settings checked control.phase := by
  cases moves_of_step taken <;> simp_all [Label.local, Asking]

theorem work_simulates
    (sound : Sound settings unit state)
    {label : Dispatcher.Label σ ρ}
    (taken : step settings state (.work label) = some next) :
    Simulates settings unit state (.work label) next := by
  have worked : ∀ {label : Dispatcher.Label σ ρ},
      label.local = true → label ≠ .stop →
      (∀ now, label ≠ .wait false now) →
      (∀ now, label ≠ .collect now false) →
      (Dispatcher.step settings state.control label).map
        (fun control => { state with control }) = some next →
      Simulates settings unit state (.work label) next := by
    intro label own apart elsewhere here taken
    obtain ⟨control, stepped, rfl⟩ := Option.map_eq_some_iff.mp taken
    obtain ⟨running, empty⟩ := running_of_step stepped (.inl ⟨own, apart⟩)
    refine ⟨⟨sound.queue, empty sound.empty, fun busy =>
      running.trans (sound.posting busy), fun busy => ?_⟩,
      local_simulates own stepped⟩
    exact absurd (sound.asking busy)
      (not_asking_of_step stepped own apart elsewhere here _)
  simp only [step] at taken
  split at taken
  · exact worked rfl nofun (fun _ => nofun) (fun _ => nofun) taken
  · exact worked rfl nofun (fun _ => nofun) (fun _ => nofun) taken
  · exact worked rfl nofun (fun _ => nofun) (fun _ => nofun) taken
  · cases taken

/-- The worker goes into a call on the queue. -/
theorem enter_simulates
    (sound : Sound settings unit state)
    {label : Queue.Blocking.Label (EventJob σ)}
    (call : label = .tryDequeue ∨ ∃ timeout, label = .waitDequeueTimed timeout)
    {queue : Queue.Blocking.State (EventJob σ)}
    (entered : Queue.Blocking.step 512 state.queue label = some queue)
    (checked : Nat)
    (asking : Asking settings checked state.control.phase) :
    Sound settings unit { state with queue, checked } ∧
      State.abstract { state with queue, checked } = state.abstract := by
  have kept := Queue.Blocking.step_sound sound.queue entered
  have same : queue.trace = state.queue.trace ∧
      queue.producer = state.queue.producer := by
    rcases call with rfl | ⟨timeout, rfl⟩ <;>
      simp only [Queue.Blocking.step] at entered <;>
      split at entered <;> cases entered <;> exact ⟨rfl, rfl⟩
  refine ⟨⟨kept, sound.empty, fun busy => sound.posting (same.2 ▸ busy),
    fun _ => asking⟩, ?_⟩
  unfold State.abstract
  rw [jobs_congr same.1]

theorem call_simulates
    (sound : Sound settings unit state)
    {now : Nat}
    (taken : step settings state (.call now) = some next) :
    Simulates settings unit state (.call now) next := by
  simp only [step] at taken
  split at taken <;> rename_i idle phase
  · obtain ⟨queue, entered, rfl⟩ := Option.map_eq_some_iff.mp taken
    have simulated := enter_simulates sound (.inr ⟨_, rfl⟩) entered
      state.checked (by rw [phase]; trivial)
    simp only [Simulates, performs, phase]
    exact simulated
  · split at taken <;> rename_i full
    · obtain ⟨control, stepped, rfl⟩ := Option.map_eq_some_iff.mp taken
      obtain ⟨running, empty⟩ := running_of_step stepped (.inl ⟨rfl, nofun⟩)
      simp only [Simulates, performs, phase, if_pos full]
      exact ⟨⟨sound.queue, empty sound.empty, fun busy =>
        running.trans (sound.posting busy), fun busy => absurd idle busy⟩,
        local_simulates rfl stepped⟩
    · obtain ⟨queue, entered, rfl⟩ := Option.map_eq_some_iff.mp taken
      have asking : Asking settings now state.control.phase := by
        rw [phase]
        exact Bool.eq_false_iff.mpr full
      simp only [Simulates, performs, phase, if_neg full]
      exact enter_simulates sound (.inr ⟨_, rfl⟩) entered now asking
  · obtain ⟨queue, entered, rfl⟩ := Option.map_eq_some_iff.mp taken
    have simulated := enter_simulates sound (.inl rfl) entered
      state.checked (by rw [phase]; trivial)
    simp only [Simulates, performs, phase]
    exact simulated
  · cases taken

theorem withQueue_self
    {control : Dispatcher.State σ ρ}
    {queue : List (EventJob σ)}
    (same : control.queue = queue) :
    control.withQueue queue = control := by
  subst same
  rfl

/-- The answer to a call is a step of the worker. -/
theorem asked_worker (now : Nat) (arrived : Bool) :
    (state.asked now arrived).local = true ∧
        state.asked now arrived ≠ .stop ∨
      (state.asked now arrived).asks = true := by
  unfold State.asked
  split <;> cases arrived <;> simp [Label.local, Label.asks]

theorem asked_asks (now : Nat) :
    (state.asked now true).asks = true := by
  unfold State.asked
  split <;> rfl

/-- A worker that asked for a job of a batch has room and time for it. -/
theorem Asking.room
    (asking : Asking settings state.checked state.control.phase)
    {batch : Batch σ}
    {deadline now checked : Nat}
    (phase : state.control.phase = .collecting batch deadline)
    (label : state.asked now true = .collect checked true) :
    batch.jobs.length < settings.maxBatchSize ∧ checked < deadline := by
  unfold State.asked at label
  simp only [phase, Label.collect.injEq, and_true] at label
  subst label
  rw [phase] at asking
  simpa [Asking, complete] using asking

theorem consume_simulates
    (sound : Sound settings unit state)
    {now : Nat}
    (taken : step settings state (.consume now) = some next) :
    Simulates settings unit state (.consume now) next := by
  simp only [step] at taken
  obtain ⟨queue, consumed, settled⟩ := Option.bind_eq_some_iff.mp taken
  have kept := Queue.Blocking.step_sound sound.queue consumed
  obtain ⟨others, outcome⟩ := Queue.Blocking.got_of_consume consumed
  have busy : state.queue.consumer ≠ .idle := by
    intro idle
    simp [Queue.Blocking.step, Queue.Blocking.consume, idle] at consumed
  have asking := sound.asking busy
  obtain ⟨_, outer, balanced⟩ := sound.queue
  obtain ⟨_, outer', balanced'⟩ := id kept
  have before := balanced.outside
  have after := balanced'.outside
  unfold Simulates
  simp only [performs, consumed, Option.bind_some]
  cases outcome with
  | silent trace busy =>
      have waits : answer queue = none := by
        unfold answer
        split
        · exact absurd ‹_› busy
        · rfl
      simp only [settle, waits, Option.some.injEq] at settled
      subst settled
      rw [waits]
      refine ⟨⟨kept, sound.empty, fun posting =>
        sound.posting (others ▸ posting), fun _ => asking⟩, ?_⟩
      unfold State.abstract
      exact congrArg state.control.withQueue (jobs_congr trace)
  | popped job trace done =>
      have answers : answer queue = some (some job) := by
        simp only [answer, done, trace, List.getLast?_concat]
      simp only [settle, answers] at settled
      obtain ⟨control, stepped, rfl⟩ := Option.map_eq_some_iff.mp settled
      rw [answers]
      rw [trace] at after
      have one : Dispatcher.step settings (state.control.withQueue [job])
          (state.asked now true) = some control := stepped
      have taking := fun rest => step_withQueue_cons settings state.control
        job rest (asked_asks now)
        fun batch deadline checked phase label => asking.room phase label
      have empty : control.queue = [] := by
        have same := taking []
        rw [one] at same
        exact congrArg Dispatcher.State.queue (Option.some.inj same)
      obtain ⟨running, _⟩ := running_of_step one (asked_worker now true)
      refine ⟨⟨kept, empty, fun posting =>
        running.trans (sound.posting (others ▸ posting)),
        fun busy => absurd done busy⟩, ?_⟩
      show Dispatcher.step settings (state.control.withQueue _)
        (state.asked now true) = some (control.withQueue (jobs queue))
      rw [jobs_eq before, jobs_eq balanced'.outside,
        before.elements_of_pop after, taking, one]
      rfl
  | missed trace done =>
      have answers : answer queue = some none := by
        simp [answer, done, trace]
      simp only [settle, answers] at settled
      obtain ⟨control, stepped, rfl⟩ := Option.map_eq_some_iff.mp settled
      rw [answers]
      rw [trace] at after
      obtain ⟨drained, still⟩ := before.elements_of_miss after
      obtain ⟨running, empty⟩ :=
        running_of_step stepped (asked_worker now false)
      refine ⟨⟨kept, empty rfl, fun posting =>
        running.trans (sound.posting (others ▸ posting)),
        fun busy => absurd done busy⟩, ?_⟩
      show Dispatcher.step settings (state.control.withQueue _)
        (state.asked now false) = some (control.withQueue (jobs queue))
      rw [jobs_eq before, jobs_eq balanced'.outside, drained, still,
        withQueue_self (empty rfl)]
      exact stepped

theorem expire_simulates
    (sound : Sound settings unit state)
    (taken : step settings state .expire = some next) :
    Simulates settings unit state .expire next := by
  simp only [step] at taken
  obtain ⟨queue, expired, rfl⟩ := Option.map_eq_some_iff.mp taken
  have kept := Queue.Blocking.step_sound sound.queue expired
  simp only [Queue.Blocking.step] at expired
  split at expired <;> rename_i phase
  · split at expired
    · cases expired
      have busy : state.queue.consumer ≠ .idle := by
        rw [phase]
        intro same
        cases same
      exact ⟨⟨kept, sound.empty, sound.posting, fun _ =>
        sound.asking busy⟩, rfl⟩
    · cases expired
  · cases expired

theorem step_simulates
    (sound : Sound settings unit state)
    {label : Label σ ρ}
    (taken : step settings state label = some next) :
    Simulates settings unit state label next := by
  cases label with
  | post job => exact post_simulates sound taken
  | produce memory => exact produce_simulates sound taken
  | stop => exact stop_simulates sound taken
  | work label => exact work_simulates sound taken
  | call now => exact call_simulates sound taken
  | consume now => exact consume_simulates sound taken
  | expire => exact expire_simulates sound taken

/-- Whatever is permitted of the machine with the list. -/
def Permitted
    (settings : Settings)
    (permitted : Dispatcher.State σ ρ → Dispatcher.Label σ ρ → Prop)
    (state : State σ ρ)
    (label : Label σ ρ) : Prop :=
  ∀ performed ∈ performs settings state label,
    permitted state.abstract performed

/-- The dispatcher over the lock-free queue, with the two threads interleaved
in any way, reaches only states of the machine with a list for the queue. -/
theorem abstract_of_reachable
    (settings : Settings)
    (permitted : Dispatcher.State σ ρ → Dispatcher.Label σ ρ → Prop)
    (state : State σ ρ)
    (reachable : Transition.Reachable (step settings)
      (Permitted settings permitted) {} state) :
    Transition.Reachable (Dispatcher.step settings) permitted {}
      state.abstract := by
  obtain ⟨unit, arranged⟩ : ∃ unit, Queue.Arranged 15 unit
      (Queue.State.create 512 15 : Queue.State (EventJob σ)) :=
    Queue.create_arranged Queue.validMax_default (by decide) (by decide)
  have initial : Sound settings unit ({} : State σ ρ) :=
    ⟨Queue.Blocking.create_sound arranged, rfl, fun _ => rfl,
      fun busy => absurd rfl busy⟩
  refine (Transition.Reachable.simulation State.abstract
    (performs settings) (Sound settings unit) initial ?_ reachable).2
  intro before label after sound allowed taken
  obtain ⟨kept, simulated⟩ := step_simulates sound taken
  refine ⟨kept, ?_⟩
  split at simulated <;> rename_i performed
  · rw [performed]
    exact simulated
  · rw [performed]
    exact ⟨allowed _ performed, simulated⟩

/-- A job for one sink. -/
def sampleQueued : EventJob Unit where
  ev := { op := .insert, commitLsn := 7 }
  sinks := [⟨(), true⟩]

/-- The worker asks for a job just when one is being posted. -/
def samplePosting : List (Label Unit Unit) :=
  [.work .checkRunning, .post sampleQueued, .call 0, .produce true,
    .consume 0, .produce true, .consume 0, .produce true, .consume 0,
    .consume 0, .consume 0, .consume 0, .consume 3]

theorem abstract_samplePosting :
    ∃ state : State Unit Unit, state.abstract.trace =
        [.posted sampleQueued, .dequeued sampleQueued] ∧
      Transition.Reachable (Dispatcher.step {}) (fun _ _ => True) {}
        state.abstract := by
  obtain ⟨state, reached, trace⟩ := Transition.exists_reachable_of_run
    (Permitted {} fun _ _ => True) samplePosting
    (fun _ _ _ _ _ => trivial)
    (show ((Transition.run (step {}) {} samplePosting).any fun state =>
      state.abstract.trace =
        [.posted sampleQueued, .dequeued sampleQueued]) = true by
      decide +kernel)
  exact ⟨state, of_decide_eq_true trace,
    abstract_of_reachable {} _ state reached⟩

end Threaded

end Dispatcher
end Walkrie
