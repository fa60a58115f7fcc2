import Walkrie.Queue.Linear

/-!
# The blocking queue

`BlockingReaderWriterQueue` puts a semaphore beside the lock-free queue: the
producer signals it for every element, and the consumer takes one off it
before it takes an element.  `LightweightSemaphore` counts in a variable of
its own and uses the one of the kernel only for a consumer that has gone to
sleep.  A consumer whose time is up has to take its announcement back, and
may find that it is too late for that.
-/

namespace Walkrie
namespace Queue
namespace Blocking

variable {α : Type}

/-- Where the producer is in `enqueue`. -/
inductive Producer (α : Type) where
  | idle
  /-- In `inner.enqueue`. -/
  | enqueue
  /-- In `sema->signal`, before the count is raised. -/
  | signal (element : α)
  /-- The consumer sleeps, and the kernel's semaphore is to be raised. -/
  | post
  | failed

/-- Where the consumer is in `try_dequeue` or `wait_dequeue_timed`. -/
inductive Consumer where
  | idle
  /-- In `tryWait`; a wait with a timeout goes on if it fails. -/
  | check (timeout : Option Int)
  /-- The count was positive, and is lowered. -/
  | claim
  | spin (left : Nat) (timeout : Int)
  /-- The count is lowered in any case. -/
  | commit (timeout : Int)
  | sleep (timeout : Int)
  /-- The time is up, and the count is raised again. -/
  | restore
  /-- It was not negative: the producer has signalled after all. -/
  | retake
  | retry
  /-- In `inner.try_dequeue`. -/
  | dequeue
  | failed

structure State (α : Type) where
  inner : Queue.State α
  /-- `m_count`. -/
  count : Int := 0
  /-- `m_sema`. -/
  sema : Nat := 0
  producer : Producer α := .idle
  consumer : Consumer := .idle
  trace : List (Fifo.Event α) := []

inductive Label (α : Type) where
  | enqueue (mode : AllocationMode) (element : α)
  | produce (memory : Bool)
  | tryDequeue
  | waitDequeueTimed (timeout : Int)
  | consume
  /-- The timed wait for the kernel's semaphore ends without it. -/
  | expire

/-- The spins of `waitWithPartialSpinning`. -/
def spins : Nat := 1024

/-- The answer of `inner.enqueue`, once it has returned. -/
def returned (state : State α) (inner : Queue.State α) : State α :=
  match inner.producer with
  | .idle =>
      match inner.trace.getLast? with
      | some (.push element) =>
          { state with inner, producer := .signal element }
      | some (.refuse element) =>
          { state with
            inner
            producer := .idle
            trace := state.trace ++ [.measure, .refuse element] }
      | _ => { state with inner, producer := .failed }
  | _ => { state with inner }

def produce (maxBlockSize : Nat) (memory : Bool) (state : State α) :
    Option (State α) :=
  match state.producer with
  | .idle => none
  | .enqueue =>
      (Queue.produce maxBlockSize memory state.inner).map (returned state)
  | .signal element =>
      let oldCount := state.count
      some { state with
        count := oldCount + 1
        producer :=
          if oldCount < -1 then .failed
          else if oldCount < 0 then .post
          else .idle
        trace := state.trace ++ [.push element] }
  | .post => some { state with sema := state.sema + 1, producer := .idle }
  | .failed => none

/-- The consumer has a token, and goes into `inner.try_dequeue`. -/
def enter (state : State α) : State α :=
  { state with inner := tryDequeue state.inner, consumer := .dequeue }

/-- The consumer answers that there is no element. -/
def answerFalse (state : State α) : State α :=
  { state with consumer := .idle, trace := state.trace ++ [.look, .miss] }

/-- The answer of `inner.try_dequeue`, once it has returned. -/
def received (state : State α) (inner : Queue.State α) : State α :=
  match inner.consumer with
  | .idle =>
      match inner.trace.getLast? with
      | some (.pop element) =>
          { state with
            inner
            consumer := .idle
            trace := state.trace ++ [.pop element] }
      -- The call was not a success.
      | _ => { state with inner, consumer := .failed }
  | _ => { state with inner }

def consume (state : State α) : Option (State α) :=
  match state.consumer with
  | .idle => none
  | .check timeout =>
      if 0 < state.count then some { state with consumer := .claim }
      else
        match timeout with
        | none => some (answerFalse state)
        | some timeout =>
            some { state with consumer := .spin spins timeout }
  | .claim => some (enter { state with count := state.count - 1 })
  | .spin 0 timeout => some { state with consumer := .commit timeout }
  | .spin (left + 1) timeout =>
      if 0 < state.count then some { state with consumer := .claim }
      else some { state with consumer := .spin left timeout }
  | .commit timeout =>
      let oldCount := state.count
      let lowered := { state with count := oldCount - 1 }
      if 0 < oldCount then some (enter lowered)
      else if timeout = 0 then some { lowered with consumer := .restore }
      else some { lowered with consumer := .sleep timeout }
  | .sleep _ =>
      if 0 < state.sema then
        some (enter { state with sema := state.sema - 1 })
      else none
  | .restore =>
      let oldCount := state.count
      let raised := { state with count := oldCount + 1 }
      if oldCount < 0 then some (answerFalse raised)
      else some { raised with consumer := .retake }
  | .retake =>
      let oldCount := state.count
      let lowered := { state with count := oldCount - 1 }
      if 0 < oldCount then some { lowered with consumer := .retry }
      else some { lowered with consumer := .restore }
  | .retry =>
      if 0 < state.sema then
        some (enter { state with sema := state.sema - 1 })
      else some { state with consumer := .restore }
  | .dequeue => (Queue.consume state.inner).map (received state)
  | .failed => none

def step (maxBlockSize : Nat) (state : State α) : Label α → Option (State α)
  | .enqueue mode element =>
      match state.producer with
      | .idle =>
          some { state with
            inner := Queue.enqueue state.inner mode element
            producer := .enqueue }
      | _ => none
  | .produce memory => produce maxBlockSize memory state
  | .tryDequeue =>
      match state.consumer with
      | .idle => some { state with consumer := .check none }
      | _ => none
  | .waitDequeueTimed timeout =>
      match state.consumer with
      | .idle => some { state with consumer := .check (some timeout) }
      | _ => none
  | .consume => consume state
  | .expire =>
      match state.consumer with
      | .sleep timeout =>
          if 0 < timeout then some { state with consumer := .restore }
          else none
      | _ => none

def State.create (maxBlockSize size : Nat) : State α where
  inner := Queue.State.create maxBlockSize size

end Blocking
end Queue
end Walkrie
