import Walkrie.Queue.Blocking

/-!
# Tokens and elements

The count of the semaphore, with the announcement of a consumer that waits
and the token of one that is taking its element, is the number of elements
whose `enqueue` has signalled.  So a consumer with a token finds an element,
one that is told there is none has seen an empty queue, and the kernel's
semaphore has been raised for a sleeping consumer exactly when there is
something for it.
-/

namespace Walkrie
namespace Queue

variable {α : Type}

/-! ## What a step of the lock-free queue shows -/

/-- The outcomes of a step of the producer. -/
inductive Produced (before after : State α) : Prop where
  | silent
      (trace : after.trace = before.trace)
      (busy : after.producer ≠ .idle)
  | measured
      (trace : after.trace = before.trace ++ [.measure])
      (busy : after.producer ≠ .idle)
  | grown
      (trace : after.trace = before.trace ++ [.grow])
      (busy : after.producer ≠ .idle)
  | pushed (element : α)
      (trace : after.trace = before.trace ++ [.push element])
      (done : after.producer = .idle)
  | refused (element : α)
      (trace : after.trace = before.trace ++ [.refuse element])
      (done : after.producer = .idle)

theorem produced_of_produce
    {maxBlockSize : Nat}
    {memory : Bool}
    {state after : State α}
    (taken : produce maxBlockSize memory state = some after) :
    after.consumer = state.consumer ∧ Produced state after := by
  unfold produce at taken
  split at taken
  · cases taken
  · cases taken
    refine ⟨rfl, .measured rfl ?_⟩
    simp only [State.record]
    split <;> simp
  · cases taken
    unfold constructAt
    dsimp only
    split <;> exact ⟨rfl, .silent rfl (by simp)⟩
  · cases taken
    exact ⟨rfl, .pushed _ rfl rfl⟩
  · split at taken
    · cases taken
      exact ⟨rfl, .silent rfl (by simp)⟩
    · split at taken
      · cases taken
        exact ⟨rfl, .silent rfl (by simp)⟩
      · cases taken
        exact ⟨rfl, .refused _ rfl rfl⟩
  · split at taken
    · cases taken
      exact ⟨rfl, .silent rfl (by simp)⟩
    · dsimp only at taken
      split at taken <;> cases taken <;>
        exact ⟨rfl, .silent rfl (by simp)⟩
  · cases taken
    unfold constructAt
    dsimp only
    split <;> exact ⟨rfl, .silent rfl (by simp)⟩
  · cases taken
    exact ⟨rfl, .silent rfl (by simp)⟩
  · split at taken
    · cases taken
      exact ⟨rfl, .grown rfl (by simp [State.record])⟩
    · cases taken
      exact ⟨rfl, .refused _ rfl rfl⟩
  · cases taken
    exact ⟨rfl, .silent rfl (by simp)⟩
  · cases taken
    exact ⟨rfl, .pushed _ rfl rfl⟩
  · cases taken

/-- The outcomes of a step of the consumer. -/
inductive Consumed (before after : State α) : Prop where
  | silent
      (trace : after.trace = before.trace)
      (busy : after.consumer ≠ .idle)
  | looked
      (trace : after.trace = before.trace ++ [.look])
      (busy : after.consumer ≠ .idle)
  | popped (element : α)
      (trace : after.trace = before.trace ++ [.pop element])
      (done : after.consumer = .idle)
  | missed
      (trace : after.trace = before.trace ++ [.miss])
      (done : after.consumer = .idle)

theorem consumed_of_consume
    {state after : State α}
    (taken : consume state = some after) :
    after.producer = state.producer ∧ Consumed state after := by
  unfold consume at taken
  split at taken
  · cases taken
  · cases taken
    refine ⟨rfl, .looked rfl ?_⟩
    simp only [State.record]
    split <;> simp
  · split at taken
    · cases taken
      exact ⟨rfl, .silent rfl (by simp)⟩
    · cases taken
      exact ⟨rfl, .missed rfl rfl⟩
  · cases taken
    refine ⟨rfl, .silent rfl ?_⟩
    dsimp only
    split <;> simp
  · split at taken <;> cases taken <;> exact ⟨rfl, .silent rfl (by simp)⟩
  · dsimp only at taken
    split at taken <;> cases taken <;> exact ⟨rfl, .silent rfl (by simp)⟩
  · cases taken
    exact ⟨rfl, .silent rfl (by simp)⟩
  · dsimp only at taken
    split at taken <;> cases taken <;> exact ⟨rfl, .silent rfl (by simp)⟩
  · cases taken
    exact ⟨rfl, .popped _ rfl rfl⟩
  · cases taken

theorem enqueue_producer_ne (state : State α) (mode : AllocationMode)
    (element : α) :
    (enqueue state mode element).producer ≠ .idle := by
  unfold enqueue
  dsimp only
  split <;> simp

theorem tryDequeue_consumer_ne (state : State α) :
    (tryDequeue state).consumer ≠ .idle := by
  unfold tryDequeue
  dsimp only
  split <;> simp

/-- An event that was added to the history of the queue. -/
theorem Arranged.next
    {capacity unit : Nat}
    {state : State α}
    (arranged : Arranged capacity unit state)
    {events : List (Fifo.Event α)}
    {event : Fifo.Event α}
    {memory : Fifo.Memory α}
    (legal : Fifo.Legal capacity events memory)
    (trace : state.trace = events ++ [event]) :
    ∃ after, Fifo.Legal capacity state.trace after ∧
      Fifo.Step capacity memory event after := by
  obtain ⟨_, _, _, _, _, sound⟩ := arranged
  have longer := sound.legal
  rw [trace] at longer
  obtain ⟨before, earlier, step⟩ := longer.last
  obtain rfl := earlier.unique legal
  exact ⟨_, sound.legal, step⟩

namespace Blocking

/-! ## The invariant -/

/-- The element that the consumer is not yet told of. -/
def Producer.unsignalled : Producer α → List α
  | .signal element => [element]
  | _ => []

def Producer.posting : Producer α → Int
  | .post => 1
  | _ => 0

/-- The consumer has announced that it waits. -/
def Consumer.waiting : Consumer → Int
  | .sleep _ | .restore | .retry => 1
  | _ => 0

/-- The consumer has a token. -/
def Consumer.holding : Consumer → Int
  | .dequeue => 1
  | _ => 0

/-- How often the kernel's semaphore is raised for the consumer. -/
def Consumer.owed (count : Int) : Consumer → Int
  | .sleep _ | .restore => if 0 ≤ count then 1 else 0
  | .retake | .retry => 1
  | _ => 0

def Producer.Sound (inner : Queue.Producer α) : Producer α → Prop
  | .idle | .signal _ | .post => inner = .idle
  | .enqueue => inner ≠ .idle
  | .failed => False

def Consumer.Sound (inner : Queue.Consumer α) (count : Int) :
    Consumer → Prop
  | .idle | .check _ | .spin _ _ | .commit _ => 0 ≤ count ∧ inner = .idle
  | .claim | .retake => 0 < count ∧ inner = .idle
  | .sleep _ | .restore => -1 ≤ count ∧ inner = .idle
  | .retry => 0 ≤ count ∧ inner = .idle
  | .dequeue => 0 ≤ count ∧ inner ≠ .idle
  | .failed => False

theorem Producer.posting_nonneg (producer : Producer α) :
    0 ≤ producer.posting := by
  cases producer <;> simp [posting]

theorem Consumer.Sound.least
    {inner : Queue.Consumer α}
    {count : Int}
    {consumer : Consumer}
    (sound : consumer.Sound inner count) :
    -1 ≤ count := by
  cases consumer <;> simp only [Consumer.Sound] at sound <;> omega

/-- What the consumer knows stays true when the count is raised. -/
theorem Consumer.Sound.raise
    {inner : Queue.Consumer α}
    {count : Int}
    {consumer : Consumer}
    (sound : consumer.Sound inner count) :
    consumer.Sound inner (count + 1) := by
  cases consumer <;> simp only [Consumer.Sound] at sound ⊢ <;>
    exact ⟨by omega, sound.2⟩

/-- A producer that finds the count negative raises the kernel's semaphore
for the consumer. -/
theorem Consumer.Sound.owed_raise
    {inner : Queue.Consumer α}
    {count : Int}
    {consumer : Consumer}
    (sound : consumer.Sound inner count)
    (negative : count < 0) :
    consumer.owed (count + 1) = consumer.owed count + 1 := by
  cases consumer <;> simp only [Consumer.Sound] at sound <;>
    simp only [Consumer.owed] <;> omega

theorem Consumer.owed_raise_of_nonneg
    {count : Int}
    {consumer : Consumer}
    (nonneg : 0 ≤ count) :
    consumer.owed (count + 1) = consumer.owed count := by
  cases consumer <;> simp only [Consumer.owed] <;> omega

/-- The lock-free queue has the elements that were signalled and the one that
is about to be, and there is a token for each of the former. -/
structure Balanced
    (capacity unit : Nat)
    (state : State α)
    (inner outer : Fifo.Memory α) : Prop where
  arranged : Arranged capacity unit state.inner
  inside : Fifo.Legal capacity state.inner.trace inner
  outside : Fifo.Legal 0 state.trace outer
  elements : inner.elements = outer.elements ++ state.producer.unsignalled
  unseen : inner.sawEmpty = false
  tokens : (outer.elements.length : Int) =
    state.count + state.consumer.waiting + state.consumer.holding
  posts : (state.sema : Int) + state.producer.posting =
    state.consumer.owed state.count
  producer : state.producer.Sound state.inner.producer
  consumer : state.consumer.Sound state.inner.consumer state.count

def Sound (capacity unit : Nat) (state : State α) : Prop :=
  ∃ inner outer, Balanced capacity unit state inner outer

variable {capacity unit : Nat}
variable {state : State α}
variable {inner outer : Fifo.Memory α}

theorem create_sound
    {maxBlockSize size : Nat}
    (arranged : Arranged size unit
      (Queue.State.create maxBlockSize size : Queue.State α)) :
    Sound size unit (State.create maxBlockSize size : State α) :=
  ⟨{}, {}, {
    arranged := arranged
    inside := .start
    outside := .start
    elements := rfl
    unseen := rfl
    tokens := rfl
    posts := rfl
    producer := rfl
    consumer := ⟨le_rfl, rfl⟩ }⟩

/-! ## The producer -/

theorem enqueue_sound
    (balanced : Balanced capacity unit state inner outer)
    (phase : state.producer = .idle)
    (mode : AllocationMode)
    (element : α) :
    Sound capacity unit
      { state with
        inner := Queue.enqueue state.inner mode element
        producer := .enqueue } := by
  obtain ⟨arranged, inside, outside, elements, unseen, tokens, posts,
    producer, consumer⟩ := balanced
  rw [phase] at elements posts producer
  have entered : Queue.step 0 state.inner (.enqueue mode element) =
      some (Queue.enqueue state.inner mode element) := by
    have idle : state.inner.producer = .idle := producer
    simp only [Queue.step, idle]
  exact ⟨inner, outer, {
    arranged := step_arranged arranged entered
    inside := inside
    outside := outside
    elements := elements
    unseen := unseen
    tokens := tokens
    posts := posts
    producer := enqueue_producer_ne state.inner mode element
    consumer := consumer }⟩

theorem returned_of_busy
    {after : Queue.State α}
    (busy : after.producer ≠ .idle) :
    returned state after = { state with inner := after } := by
  unfold returned
  split
  · exact absurd ‹_› busy
  · rfl

/-- Going on in `inner.enqueue`. -/
theorem returned_sound
    (balanced : Balanced capacity unit state inner outer)
    (phase : state.producer = .enqueue)
    {maxBlockSize : Nat}
    {memory : Bool}
    {after : Queue.State α}
    (taken : Queue.produce maxBlockSize memory state.inner = some after) :
    Sound capacity unit (returned state after) := by
  obtain ⟨before, inside, outside, elements, unseen, tokens, posts, _,
    consumer⟩ := balanced
  have arranged := produce_arranged before taken
  obtain ⟨others, outcome⟩ := produced_of_produce taken
  rw [phase] at elements posts
  rw [← others] at consumer
  -- While the call goes on, nothing but the inner state changes.
  have going : ∀ memory, Fifo.Legal capacity after.trace memory →
      memory.elements = inner.elements → memory.sawEmpty = false →
      after.producer ≠ .idle →
      Sound capacity unit (returned state after) := by
    intro memory legal same unseen busy
    rw [returned_of_busy busy]
    exact ⟨memory, outer, {
      arranged := arranged
      inside := legal
      outside := outside
      elements := by
        show _ = outer.elements ++ state.producer.unsignalled
        rw [phase, same, elements]
      unseen := unseen
      tokens := tokens
      posts := by
        show _ + state.producer.posting = _
        rw [phase]
        exact posts
      producer := by
        show state.producer.Sound _
        rw [phase]
        exact busy
      consumer := consumer }⟩
  cases outcome with
  | silent trace busy => exact going inner (trace ▸ inside) rfl unseen busy
  | measured trace busy =>
      obtain ⟨memory, legal, step⟩ := arranged.next inside trace
      cases step
      exact going _ legal rfl unseen busy
  | grown trace busy =>
      obtain ⟨memory, legal, step⟩ := arranged.next inside trace
      cases step
      exact going _ legal rfl unseen busy
  | pushed element trace done =>
      obtain ⟨memory, legal, step⟩ := arranged.next inside trace
      cases step
      have answer : returned state after =
          { state with inner := after, producer := .signal element } := by
        simp only [returned, done, trace, List.getLast?_concat]
      rw [answer]
      refine ⟨_, outer, {
        arranged := arranged
        inside := legal
        outside := outside
        elements := ?_
        unseen := unseen
        tokens := tokens
        posts := posts
        producer := done
        consumer := consumer }⟩
      exact congrArg (· ++ [element]) (elements.trans (List.append_nil _))
  | refused element trace done =>
      obtain ⟨memory, legal, step⟩ := arranged.next inside trace
      cases step
      have answer : returned state after =
          { state with
            inner := after
            producer := .idle
            trace := state.trace ++ [.measure, .refuse element] } := by
        simp only [returned, done, trace, List.getLast?_concat]
      rw [answer]
      refine ⟨_, _, {
        arranged := arranged
        inside := legal
        outside := outside.refused element
        elements := elements
        unseen := unseen
        tokens := tokens
        posts := posts
        producer := done
        consumer := consumer }⟩

/-- The signal, and with it the element, is seen by the consumer. -/
theorem signal_sound
    (balanced : Balanced capacity unit state inner outer)
    {element : α}
    (phase : state.producer = .signal element) :
    Sound capacity unit
      { state with
        count := state.count + 1
        producer :=
          if state.count < -1 then .failed
          else if state.count < 0 then .post
          else .idle
        trace := state.trace ++ [.push element] } := by
  obtain ⟨arranged, inside, outside, elements, unseen, tokens, posts,
    producer, consumer⟩ := balanced
  rw [phase] at elements posts producer
  have pushed : Fifo.Legal 0 (state.trace ++ [.push element])
      ⟨outer.elements ++ [element], outer.sawEmpty, false⟩ :=
    outside.next (.push element)
  have least : -1 ≤ state.count := consumer.least
  rw [if_neg (by omega : ¬state.count < -1)]
  have counted : ((outer.elements ++ [element]).length : Int) =
      state.count + 1 + state.consumer.waiting +
        state.consumer.holding := by
    rw [List.length_append, List.length_singleton]
    push_cast
    omega
  have knows := consumer.raise
  split <;> rename_i negative
  · refine ⟨inner, _, {
      arranged := arranged
      inside := inside
      outside := pushed
      elements := elements.trans (List.append_nil _).symm
      unseen := unseen
      tokens := counted
      posts := ?_
      producer := producer
      consumer := knows }⟩
    show (state.sema : Int) + 1 = state.consumer.owed (state.count + 1)
    rw [consumer.owed_raise negative, ← posts]
    rfl
  · refine ⟨inner, _, {
      arranged := arranged
      inside := inside
      outside := pushed
      elements := elements.trans (List.append_nil _).symm
      unseen := unseen
      tokens := counted
      posts := ?_
      producer := producer
      consumer := knows }⟩
    show (state.sema : Int) + 0 = state.consumer.owed (state.count + 1)
    rw [Consumer.owed_raise_of_nonneg (not_lt.mp negative), ← posts]
    rfl

theorem post_sound
    (balanced : Balanced capacity unit state inner outer)
    (phase : state.producer = .post) :
    Sound capacity unit
      { state with sema := state.sema + 1, producer := .idle } := by
  obtain ⟨arranged, inside, outside, elements, unseen, tokens, posts,
    producer, consumer⟩ := balanced
  rw [phase] at elements posts producer
  refine ⟨inner, outer, {
    arranged := arranged
    inside := inside
    outside := outside
    elements := elements
    unseen := unseen
    tokens := tokens
    posts := ?_
    producer := producer
    consumer := consumer }⟩
  show ((state.sema + 1 : Nat) : Int) + 0 = state.consumer.owed state.count
  rw [← posts]
  push_cast
  simp [Producer.posting]

theorem produce_sound
    (sound : Sound capacity unit state)
    {maxBlockSize : Nat}
    {memory : Bool}
    {after : State α}
    (taken : produce maxBlockSize memory state = some after) :
    Sound capacity unit after := by
  obtain ⟨inner, outer, balanced⟩ := sound
  unfold produce at taken
  split at taken <;> rename_i phase
  · cases taken
  · obtain ⟨next, produced, rfl⟩ := Option.map_eq_some_iff.mp taken
    exact returned_sound balanced phase produced
  · cases taken
    exact signal_sound balanced phase
  · cases taken
    exact post_sound balanced phase
  · cases taken

/-! ## The consumer -/

/-- The consumer does nothing that the count or the producer depends on. -/
theorem move_sound
    (balanced : Balanced capacity unit state inner outer)
    {next : Consumer}
    {count : Int}
    (tokens : count + next.waiting + next.holding =
      state.count + state.consumer.waiting + state.consumer.holding)
    (posts : next.owed count = state.consumer.owed state.count)
    (knows : next.Sound state.inner.consumer count) :
    Sound capacity unit { state with count, consumer := next } :=
  ⟨inner, outer, {
    arranged := balanced.arranged
    inside := balanced.inside
    outside := balanced.outside
    elements := balanced.elements
    unseen := balanced.unseen
    tokens := balanced.tokens.trans tokens.symm
    posts := balanced.posts.trans posts.symm
    producer := balanced.producer
    consumer := knows }⟩

/-- The consumer has got a token. -/
theorem enter_sound
    (balanced : Balanced capacity unit state inner outer)
    {count : Int}
    {sema : Nat}
    (idle : state.inner.consumer = .idle)
    (least : 0 ≤ count)
    (tokens : count + 1 =
      state.count + state.consumer.waiting + state.consumer.holding)
    (posts : (sema : Int) + state.consumer.owed state.count =
      state.sema) :
    Sound capacity unit (enter { state with count, sema }) := by
  obtain ⟨arranged, inside, outside, elements, unseen, counted, posted,
    producer, consumer⟩ := balanced
  have entered : Queue.step 0 state.inner .tryDequeue =
      some (tryDequeue state.inner) := by
    simp only [Queue.step, idle]
  refine ⟨inner, outer, {
    arranged := step_arranged arranged entered
    inside := inside
    outside := outside
    elements := elements
    unseen := unseen
    tokens := ?_
    posts := ?_
    producer := producer
    consumer := ⟨least, tryDequeue_consumer_ne state.inner⟩ }⟩
  · show _ = count + 0 + 1
    omega
  · show (sema : Int) + state.producer.posting = 0
    omega

/-- The consumer answers that there is no element. -/
theorem answerFalse_sound
    (balanced : Balanced capacity unit state inner outer)
    {count : Int}
    (zero : count = 0)
    (idle : state.inner.consumer = .idle)
    (empty : state.count + state.consumer.waiting +
      state.consumer.holding = 0)
    (posts : state.consumer.owed state.count = 0) :
    Sound capacity unit (answerFalse { state with count }) := by
  obtain ⟨arranged, inside, outside, elements, unseen, counted, posted,
    producer, consumer⟩ := balanced
  have empty : outer.elements = [] := by
    rw [← List.length_eq_zero_iff]
    omega
  exact ⟨inner, _, {
    arranged := arranged
    inside := inside
    outside := outside.missed empty
    elements := elements
    unseen := unseen
    tokens := by
      show (outer.elements.length : Int) = count + 0 + 0
      omega
    posts := posted.trans posts
    producer := producer
    consumer := ⟨zero.ge, idle⟩ }⟩

theorem received_of_busy
    {after : Queue.State α}
    (busy : after.consumer ≠ .idle) :
    received state after = { state with inner := after } := by
  unfold received
  split
  · exact absurd ‹_› busy
  · rfl

/-- Going on in `inner.try_dequeue`, which finds an element. -/
theorem received_sound
    (balanced : Balanced capacity unit state inner outer)
    (phase : state.consumer = .dequeue)
    {after : Queue.State α}
    (taken : Queue.consume state.inner = some after) :
    Sound capacity unit (received state after) := by
  obtain ⟨before, inside, outside, elements, unseen, tokens, posts, producer,
    consumer⟩ := balanced
  have arranged := consume_arranged before taken
  obtain ⟨others, outcome⟩ := consumed_of_consume taken
  rw [phase] at tokens posts consumer
  rw [← others] at producer
  obtain ⟨least, _⟩ := consumer
  obtain ⟨first, rest, split⟩ : ∃ first rest,
      outer.elements = first :: rest := by
    refine List.exists_cons_of_ne_nil fun empty => ?_
    rw [empty] at tokens
    simp only [Consumer.waiting, Consumer.holding, List.length_nil] at tokens
    omega
  have going : ∀ memory, Fifo.Legal capacity after.trace memory →
      memory.elements = inner.elements → memory.sawEmpty = false →
      after.consumer ≠ .idle →
      Sound capacity unit (received state after) := by
    intro memory legal same unseen busy
    rw [received_of_busy busy]
    exact ⟨memory, outer, {
      arranged := arranged
      inside := legal
      outside := outside
      elements := same.trans elements
      unseen := unseen
      tokens := by
        show _ = state.count + state.consumer.waiting +
          state.consumer.holding
        rw [phase]
        exact tokens
      posts := by
        show _ = state.consumer.owed state.count
        rw [phase]
        exact posts
      producer := producer
      consumer := by
        show state.consumer.Sound _ state.count
        rw [phase]
        exact ⟨least, busy⟩ }⟩
  cases outcome with
  | silent trace busy => exact going inner (trace ▸ inside) rfl unseen busy
  | looked trace busy =>
      have nonempty : inner.elements.isEmpty = false := by
        rw [elements, split]
        rfl
      obtain ⟨memory, legal, step⟩ := arranged.next inside trace
      cases step
      exact going _ legal rfl nonempty busy
  | popped element trace done =>
      obtain ⟨memory, legal, step⟩ := arranged.next inside trace
      cases step
      rw [split, List.cons_append] at elements
      obtain ⟨rfl, tail⟩ := List.cons.inj elements
      have answer : received state after =
          { state with
            inner := after
            consumer := .idle
            trace := state.trace ++ [.pop element] } := by
        simp only [received, done, trace, List.getLast?_concat]
      rw [answer]
      obtain ⟨outers, sawEmpty, sawFull⟩ := outer
      subst split
      refine ⟨_, _, {
        arranged := arranged
        inside := legal
        outside := outside.next .pop
        elements := tail
        unseen := rfl
        tokens := ?_
        posts := posts
        producer := producer
        consumer := ⟨least, done⟩ }⟩
      simp only [Consumer.waiting, Consumer.holding, List.length_cons]
        at tokens ⊢
      push_cast at tokens
      omega
  | missed trace done =>
      -- A look at the queue has never found it empty.
      obtain ⟨memory, legal, step⟩ := arranged.next inside trace
      cases step
      cases unseen

theorem consume_sound
    (sound : Sound capacity unit state)
    {after : State α}
    (taken : consume state = some after) :
    Sound capacity unit after := by
  obtain ⟨inner, outer, balanced⟩ := sound
  have knows := balanced.consumer
  have posts := balanced.posts
  have nonneg := state.producer.posting_nonneg
  unfold consume at taken
  split at taken <;> rename_i phase <;> rw [phase] at knows posts
  · cases taken
  · split at taken <;> rename_i available
    · cases taken
      exact move_sound balanced (by rw [phase]; rfl) (by rw [phase]; rfl)
        ⟨available, knows.2⟩
    · have zero : state.count = 0 := by have least := knows.1; omega
      split at taken
      · cases taken
        exact answerFalse_sound balanced zero knows.2
          (by rw [phase, zero]; rfl) (by rw [phase]; rfl)
      · cases taken
        exact move_sound balanced (by rw [phase]; rfl) (by rw [phase]; rfl)
          knows
  · cases taken
    refine enter_sound balanced knows.2 ?_ ?_ ?_
    · have positive := knows.1
      omega
    · rw [phase]
      simp [Consumer.waiting, Consumer.holding]
    · rw [phase]
      exact add_zero _
  · cases taken
    exact move_sound balanced (by rw [phase]; rfl) (by rw [phase]; rfl)
      knows
  · split at taken <;> rename_i available
    · cases taken
      exact move_sound balanced (by rw [phase]; rfl) (by rw [phase]; rfl)
        ⟨available, knows.2⟩
    · cases taken
      exact move_sound balanced (by rw [phase]; rfl) (by rw [phase]; rfl)
        knows
  · dsimp only at taken
    split at taken <;> rename_i available
    · cases taken
      refine enter_sound balanced knows.2 (by omega) ?_ ?_
      · rw [phase]
        simp [Consumer.waiting, Consumer.holding]
      · rw [phase]
        exact add_zero _
    · -- Nobody has signalled yet, so the count is negative now.
      have zero : state.count = 0 := by have least := knows.1; omega
      split at taken
      · cases taken
        refine move_sound balanced ?_ ?_ ⟨by omega, knows.2⟩
        · rw [phase, zero]
          rfl
        · rw [phase, zero]
          rfl
      · cases taken
        refine move_sound balanced ?_ ?_ ⟨by omega, knows.2⟩
        · rw [phase, zero]
          rfl
        · rw [phase, zero]
          rfl
  · split at taken <;> rename_i raised
    · cases taken
      simp only [Consumer.owed] at posts
      have signalled : 0 ≤ state.count := by
        by_contra negative
        rw [if_neg negative] at posts
        omega
      rw [if_pos signalled] at posts
      refine enter_sound balanced knows.2 signalled ?_ ?_
      · rw [phase]
        simp [Consumer.waiting, Consumer.holding]
      · rw [phase]
        simp only [Consumer.owed, if_pos signalled]
        omega
    · cases taken
  · dsimp only at taken
    split at taken <;> rename_i negative
    · have last : state.count = -1 := by have least := knows.1; omega
      cases taken
      refine answerFalse_sound balanced (by omega) knows.2 ?_ ?_
      · rw [phase, last]
        rfl
      · rw [phase, last]
        rfl
    · cases taken
      refine move_sound balanced ?_ ?_ ⟨by omega, knows.2⟩
      · rw [phase]
        simp [Consumer.waiting, Consumer.holding]
      · rw [phase]
        simp only [Consumer.owed, if_pos (not_lt.mp negative)]
  · dsimp only at taken
    rw [if_pos knows.1] at taken
    cases taken
    refine move_sound balanced ?_ (by rw [phase]; rfl) ⟨?_, knows.2⟩
    · rw [phase]
      simp [Consumer.waiting, Consumer.holding]
    · have positive := knows.1
      omega
  · split at taken <;> rename_i raised
    · cases taken
      refine enter_sound balanced knows.2 knows.1 ?_ ?_
      · rw [phase]
        simp [Consumer.waiting, Consumer.holding]
      · rw [phase]
        simp only [Consumer.owed] at posts ⊢
        omega
    · cases taken
      refine move_sound balanced (by rw [phase]; rfl) ?_
        ⟨by have least := knows.1; omega, knows.2⟩
      rw [phase]
      simp only [Consumer.owed, if_pos knows.1]
  · obtain ⟨next, consumed, rfl⟩ := Option.map_eq_some_iff.mp taken
    exact received_sound balanced phase consumed
  · cases taken

/-! ## What a step of the blocking queue shows -/

/-- The outcomes of a step of the producer. -/
inductive Sent (before after : State α) : Prop where
  | silent
      (trace : after.trace = before.trace)
      (unsignalled : ∀ element, before.producer ≠ .signal element)
  | pushed (element : α)
      (trace : after.trace = before.trace ++ [.push element])
      (phase : before.producer = .signal element)
  | refused (element : α)
      (trace : after.trace = before.trace ++ [.measure, .refuse element])
      (unsignalled : ∀ element, before.producer ≠ .signal element)

theorem sent_of_produce
    {maxBlockSize : Nat}
    {memory : Bool}
    {after : State α}
    (taken : produce maxBlockSize memory state = some after) :
    after.consumer = state.consumer ∧ Sent state after := by
  unfold produce at taken
  split at taken <;> rename_i phase
  · cases taken
  · have apart : ∀ element, state.producer ≠ .signal element := by
      rw [phase]
      exact fun _ => nofun
    obtain ⟨next, _, rfl⟩ := Option.map_eq_some_iff.mp taken
    unfold returned
    split
    · split
      · exact ⟨rfl, .silent rfl apart⟩
      · exact ⟨rfl, .refused _ rfl apart⟩
      · exact ⟨rfl, .silent rfl apart⟩
    · exact ⟨rfl, .silent rfl apart⟩
  · cases taken
    exact ⟨rfl, .pushed _ rfl phase⟩
  · cases taken
    refine ⟨rfl, .silent rfl ?_⟩
    rw [phase]
    exact fun _ => nofun
  · cases taken

/-- The outcomes of a step of the consumer. -/
inductive Got (before after : State α) : Prop where
  | silent
      (trace : after.trace = before.trace)
      (busy : after.consumer ≠ .idle)
  | popped (element : α)
      (trace : after.trace = before.trace ++ [.pop element])
      (done : after.consumer = .idle)
  | missed
      (trace : after.trace = before.trace ++ [.look, .miss])
      (done : after.consumer = .idle)

theorem got_of_consume
    {after : State α}
    (taken : consume state = some after) :
    after.producer = state.producer ∧ Got state after := by
  unfold consume at taken
  split at taken <;> rename_i phase
  · cases taken
  · split at taken
    · cases taken
      exact ⟨rfl, .silent rfl nofun⟩
    · split at taken
      · cases taken
        exact ⟨rfl, .missed rfl rfl⟩
      · cases taken
        exact ⟨rfl, .silent rfl nofun⟩
  · cases taken
    exact ⟨rfl, .silent rfl nofun⟩
  · cases taken
    exact ⟨rfl, .silent rfl nofun⟩
  · split at taken <;> cases taken <;> exact ⟨rfl, .silent rfl nofun⟩
  · dsimp only at taken
    split at taken
    · cases taken
      exact ⟨rfl, .silent rfl nofun⟩
    · split at taken <;> cases taken <;> exact ⟨rfl, .silent rfl nofun⟩
  · split at taken <;> cases taken
    exact ⟨rfl, .silent rfl nofun⟩
  · dsimp only at taken
    split at taken <;> cases taken
    · exact ⟨rfl, .missed rfl rfl⟩
    · exact ⟨rfl, .silent rfl nofun⟩
  · dsimp only at taken
    split at taken <;> cases taken <;> exact ⟨rfl, .silent rfl nofun⟩
  · split at taken <;> cases taken <;> exact ⟨rfl, .silent rfl nofun⟩
  · obtain ⟨next, _, rfl⟩ := Option.map_eq_some_iff.mp taken
    unfold received
    split
    · split
      · exact ⟨rfl, .popped _ rfl rfl⟩
      · exact ⟨rfl, .silent rfl nofun⟩
    · refine ⟨rfl, .silent rfl ?_⟩
      show state.consumer ≠ .idle
      rw [phase]
      nofun
  · cases taken

/-! ## Every run -/

theorem step_sound
    (sound : Sound capacity unit state)
    {maxBlockSize : Nat}
    {label : Label α}
    {after : State α}
    (taken : step maxBlockSize state label = some after) :
    Sound capacity unit after := by
  cases label with
  | enqueue mode element =>
      obtain ⟨inner, outer, balanced⟩ := sound
      simp only [step] at taken
      split at taken <;> rename_i phase
      · cases taken
        exact enqueue_sound balanced phase mode element
      · cases taken
  | produce memory => exact produce_sound sound taken
  | tryDequeue =>
      obtain ⟨inner, outer, balanced⟩ := sound
      have knows := balanced.consumer
      simp only [step] at taken
      split at taken <;> rename_i phase
      · cases taken
        rw [phase] at knows
        exact move_sound balanced (by rw [phase]; rfl) (by rw [phase]; rfl)
          knows
      · cases taken
  | waitDequeueTimed timeout =>
      obtain ⟨inner, outer, balanced⟩ := sound
      have knows := balanced.consumer
      simp only [step] at taken
      split at taken <;> rename_i phase
      · cases taken
        rw [phase] at knows
        exact move_sound balanced (by rw [phase]; rfl) (by rw [phase]; rfl)
          knows
      · cases taken
  | consume => exact consume_sound sound taken
  | expire =>
      obtain ⟨inner, outer, balanced⟩ := sound
      have knows := balanced.consumer
      simp only [step] at taken
      split at taken <;> rename_i phase
      · split at taken
        · cases taken
          rw [phase] at knows
          exact move_sound balanced (by rw [phase]; rfl)
            (by rw [phase]; rfl) knows
        · cases taken
      · cases taken

/-- The states of a blocking queue that was constructed for a number of
elements. -/
def Reached (maxBlockSize size : Nat) (state : State α) : Prop :=
  Transition.Reachable (step maxBlockSize) (fun _ _ => True)
    (State.create maxBlockSize size) state

theorem sound_of_reached
    {maxBlockSize size : Nat}
    (valid : ValidMax maxBlockSize)
    (positive : 1 ≤ size)
    (bounded : size < 2 ^ 63)
    (reached : Reached maxBlockSize size state) :
    ∃ unit, Sound size unit state := by
  obtain ⟨unit, arranged⟩ := create_arranged valid positive bounded
  exact ⟨unit, Transition.Reachable.invariant reached _
    (create_sound arranged) fun _ _ _ sound _ taken =>
      step_sound sound taken⟩

/-- An assertion has failed, in the queue or around it. -/
def State.hasFailed (state : State α) : Bool :=
  state.inner.hasFailed ||
  (match state.producer with
    | .failed => true
    | _ => false) ||
  match state.consumer with
  | .failed => true
  | _ => false

theorem Balanced.not_hasFailed
    (balanced : Balanced capacity unit state inner outer) :
    state.hasFailed = false := by
  have producer := balanced.producer
  have consumer := balanced.consumer
  unfold State.hasFailed
  rw [balanced.arranged.not_hasFailed]
  cases phase : state.producer <;> cases other : state.consumer <;>
    first
    | rfl
    | (rw [phase] at producer; exact producer.elim)
    | (rw [other] at consumer; exact consumer.elim)

/-- Whatever the threads do, and whenever a wait is given up, the calls answer
as those of a queue, no element is answered to be missing that was put in
before, and no assertion fails: in particular, a consumer with a token always
finds an element. -/
theorem answers_of_reached
    {maxBlockSize size : Nat}
    (valid : ValidMax maxBlockSize)
    (positive : 1 ≤ size)
    (bounded : size < 2 ^ 63)
    (reached : Reached maxBlockSize size state) :
    state.hasFailed = false ∧
      ∃ memory, Fifo.Legal 0 state.trace memory := by
  obtain ⟨unit, inner, outer, balanced⟩ :=
    sound_of_reached valid positive bounded reached
  exact ⟨balanced.not_hasFailed, outer, balanced.outside⟩

/-- An element is put in while the consumer sleeps. -/
def sampleSleep : List (Label Nat) :=
  .waitDequeueTimed 200000 :: List.replicate (spins + 3) .consume ++
    [.enqueue .canAlloc 7, .produce true, .produce true, .produce true,
      .produce true]

/-- Its wait ends before it is woken, but it gets the element, and another
look finds nothing. -/
def sampleExpired : List (Label Nat) :=
  sampleSleep ++ .expire :: List.replicate 6 .consume ++
    [.tryDequeue, .consume]

theorem answers_sampleExpired :
    ∃ state : State Nat, Reached 512 15 state ∧
      state.trace = [.push 7, .pop 7, .look, .miss] ∧
      state.hasFailed = false ∧
      ∃ memory, Fifo.Legal 0 state.trace memory := by
  obtain ⟨state, reached, trace⟩ := Transition.exists_reachable_of_run
    (fun _ _ => True) sampleExpired (fun _ _ _ => trivial)
    (show ((Transition.run (step 512) (State.create 512 15)
      sampleExpired).any fun state =>
        state.trace = [.push 7, .pop 7, .look, .miss]) = true by
      decide +kernel)
  exact ⟨state, reached, of_decide_eq_true trace,
    answers_of_reached validMax_default (by decide) (by decide) reached⟩

/-- The consumer waits for the kernel's semaphore. -/
def State.asleep (state : State α) : Bool :=
  match state.consumer with
  | .sleep _ => true
  | _ => false

/-- The producer is about to raise the kernel's semaphore. -/
def State.posting (state : State α) : Bool :=
  match state.producer with
  | .post => true
  | _ => false

/-- No wake-up is lost, and none is made up: unless the producer is about to
wake it, a sleeping consumer can go on if and only if there is an element
for it. -/
theorem wakes_iff_of_reached
    {maxBlockSize size : Nat}
    (valid : ValidMax maxBlockSize)
    (positive : 1 ≤ size)
    (bounded : size < 2 ^ 63)
    (reached : Reached maxBlockSize size state)
    (asleep : state.asleep = true)
    (settled : state.posting = false) :
    (step maxBlockSize state .consume).isSome = true ↔
      Fifo.popped state.trace ≠ Fifo.pushed state.trace := by
  obtain ⟨unit, inner, outer, balanced⟩ :=
    sound_of_reached valid positive bounded reached
  have tokens := balanced.tokens
  have posts := balanced.posts
  have quiet : state.producer.posting = 0 := by
    unfold State.posting at settled
    cases phase : state.producer <;> simp_all [Producer.posting]
  have pushed := balanced.outside.pushed_eq
  obtain ⟨timeout, phase⟩ : ∃ timeout, state.consumer = .sleep timeout := by
    unfold State.asleep at asleep
    split at asleep
    · exact ⟨_, ‹_›⟩
    · cases asleep
  rw [phase] at tokens posts
  simp only [Consumer.waiting, Consumer.holding, Consumer.owed, quiet]
    at tokens posts
  have enabled : (step maxBlockSize state .consume).isSome = true ↔
      0 < state.sema := by
    simp only [step, consume, phase]
    split <;> simp_all
  rw [enabled, pushed, ne_eq, List.self_eq_append_right, ← List.length_eq_zero_iff]
  split at posts <;> omega

theorem wakes_sampleSleep :
    ∃ state : State Nat, Reached 512 15 state ∧ state.asleep = true ∧
      state.posting = false ∧ Fifo.pushed state.trace = [7] ∧
      Fifo.popped state.trace = [] ∧
      (step 512 state .consume).isSome = true := by
  obtain ⟨state, reached, tested⟩ := Transition.exists_reachable_of_run
    (fun _ _ => True) sampleSleep (fun _ _ _ => trivial)
    (show ((Transition.run (step 512) (State.create 512 15)
      sampleSleep).any fun state => state.asleep && !state.posting &&
        decide (Fifo.pushed state.trace = [7] ∧
          Fifo.popped state.trace = [])) = true by
      decide +kernel)
  simp only [Bool.and_eq_true, Bool.not_eq_true', decide_eq_true_iff]
    at tested
  obtain ⟨⟨asleep, settled⟩, pushed, popped⟩ := tested
  refine ⟨state, reached, asleep, settled, pushed, popped, ?_⟩
  refine (wakes_iff_of_reached validMax_default (by decide) (by decide)
    reached asleep settled).mpr ?_
  rw [pushed, popped]
  decide

end Blocking
end Queue
end Walkrie
