import Walkrie.Library.Fifo
import Walkrie.Library.Transition
import Walkrie.Queue.Block

/-!
# The lock-free queue of the dispatcher

`readerwriterqueue.hpp` is a queue for one producer and one consumer: blocks
linked in a circle, the elements in those from `frontBlock` to `tailBlock`,
and the others free.  The model interleaves the two threads.  A step of a
thread ends at its next access to a variable that the other one uses, the
accesses take effect in one order, as the fences of the source are there to
ensure, and a program counter carries the local variables of the call.  An
assertion that fails, and a slot that is constructed or moved from out of
turn, leave the thread in `failed`.
-/

namespace Walkrie
namespace Queue

variable {α : Type}

inductive AllocationMode where
  | canAlloc
  | cannotAlloc
deriving DecidableEq, Repr

/-- Where the producer is in `inner_enqueue`. -/
inductive Producer (α : Type) where
  | idle
  /-- The tail block seemed full, and its `front` is read again. -/
  | reload (mode : AllocationMode) (element : α) (block blockTail : Nat)
  | construct (element : α) (block blockTail : Nat)
  | publish (element : α) (block blockTail : Nat)
  /-- The tail block is full. -/
  | full (mode : AllocationMode) (element : α) (block : Nat)
  /-- There is a free block behind the tail block. -/
  | advance (element : α) (block : Nat)
  | constructNext (element : α) (block blockTail : Nat)
  | publishNext (element : α) (block blockTail : Nat)
  | allocate (element : α) (block : Nat)
  /-- A new block has the element and is linked behind the tail block. -/
  | link (element : α) (block fresh : Nat)
  | moveTail (element : α) (block : Nat)
  | failed

/-- Where the consumer is in `try_dequeue`. -/
inductive Consumer (α : Type) where
  | idle
  /-- The front block seemed empty, and its `tail` is read again. -/
  | reload (block blockFront : Nat)
  /-- The front block is empty, and is compared with the tail block. -/
  | compare (block : Nat)
  /-- There is another block, and the front block is read once more. -/
  | reread
  | follow (block : Nat)
  | inspect (block : Nat)
  | moveFront (block blockFront : Nat)
  | take (block blockFront : Nat)
  | release (block blockFront : Nat) (element : α)
  | failed

structure State (α : Type) where
  /-- The blocks, by number; a new block has the next number. -/
  heap : Nat → Block α
  allocated : Nat
  frontBlock : Nat
  tailBlock : Nat
  largestBlockSize : Nat
  producer : Producer α := .idle
  consumer : Consumer α := .idle
  /-- The events of both threads, where they take effect. -/
  trace : List (Fifo.Event α) := []

inductive Label (α : Type) where
  /-- `enqueue` is called, or `try_enqueue`, which cannot allocate. -/
  | enqueue (mode : AllocationMode) (element : α)
  /-- The producer goes on; there may be memory for a block, or not. -/
  | produce (memory : Bool)
  | tryDequeue
  | consume

namespace State

/-- One block is written to. -/
def put (state : State α) (id : Nat) (block : Block α) : State α :=
  { state with heap := Function.update state.heap id block }

def record (state : State α) (event : Fifo.Event α) : State α :=
  { state with trace := state.trace ++ [event] }

end State

/-- The first accesses of `inner_enqueue`, which are to variables of the
producer. -/
def enqueue (state : State α) (mode : AllocationMode) (element : α) :
    State α :=
  let block := state.heap state.tailBlock
  { state with
    producer :=
      if block.following block.tail ≠ block.localFront then
        .construct element state.tailBlock block.tail
      else
        .reload mode element state.tailBlock block.tail }

/-- An element is constructed in a slot, which has to be raw memory. -/
def constructAt
    (state : State α)
    (element : α)
    (id blockTail : Nat)
    (next : Producer α) : State α :=
  let block := state.heap id
  match block.data blockTail with
  | some _ => { state with producer := .failed }
  | none =>
      { state.put id { block with
          data := Function.update block.data blockTail (some element) } with
        producer := next }

/-- The size of the next block. -/
def newBlockSize (maxBlockSize largestBlockSize : Nat) : Nat :=
  if maxBlockSize ≤ largestBlockSize then largestBlockSize
  else largestBlockSize * 2

def produce (maxBlockSize : Nat) (memory : Bool) (state : State α) :
    Option (State α) :=
  match state.producer with
  | .idle => none
  | .reload mode element id blockTail =>
      let block := state.heap id
      some ({ state.put id { block with localFront := block.front } with
        producer :=
          if block.following blockTail ≠ block.front then
            .construct element id blockTail
          else
            .full mode element id }.record .measure)
  | .construct element id blockTail =>
      some (constructAt state element id blockTail
        (.publish element id blockTail))
  | .publish element id blockTail =>
      let block := state.heap id
      some ({ state.put id { block with
          tail := block.following blockTail } with
        producer := .idle }.record (.push element))
  | .full mode element id =>
      if (state.heap id).next ≠ some state.frontBlock then
        some { state with producer := .advance element id }
      else
        match mode with
        | .canAlloc => some { state with producer := .allocate element id }
        | .cannotAlloc =>
            some ({ state with producer := .idle }.record (.refuse element))
  | .advance element id =>
      match (state.heap id).next with
      | none => some { state with producer := .failed }
      | some tailBlockNext =>
          let block := state.heap tailBlockNext
          -- The block must be empty: it is not the head block.
          if block.front = block.tail then
            some { state.put tailBlockNext
                { block with localFront := block.front } with
              producer := .constructNext element tailBlockNext block.tail }
          else
            some { state with producer := .failed }
  | .constructNext element id blockTail =>
      some (constructAt state element id blockTail
        (.publishNext element id blockTail))
  | .publishNext element id blockTail =>
      let block := state.heap id
      some { state.put id { block with
          tail := block.following blockTail } with
        producer := .moveTail element id }
  | .allocate element id =>
      if memory then
        let size := newBlockSize maxBlockSize state.largestBlockSize
        let fresh := state.allocated
        some ({ state.put fresh
            (.withElement size element (state.heap id).next) with
          allocated := fresh + 1
          largestBlockSize := size
          producer := .link element id fresh }.record .grow)
      else
        some ({ state with producer := .idle }.record (.refuse element))
  | .link element id fresh =>
      some { state.put id { state.heap id with next := some fresh } with
        producer := .moveTail element fresh }
  | .moveTail element id =>
      some ({ state with tailBlock := id, producer := .idle }.record
        (.push element))
  | .failed => none

/-- The first accesses of `try_dequeue`, which are to variables of the
consumer. -/
def tryDequeue (state : State α) : State α :=
  let block := state.heap state.frontBlock
  { state with
    consumer :=
      if block.front ≠ block.localTail then
        .take state.frontBlock block.front
      else
        .reload state.frontBlock block.front }

def consume (state : State α) : Option (State α) :=
  match state.consumer with
  | .idle => none
  | .reload id blockFront =>
      let block := state.heap id
      some ({ state.put id { block with localTail := block.tail } with
        consumer :=
          if blockFront ≠ block.tail then .take id blockFront
          else .compare id }.record .look)
  | .compare id =>
      if id ≠ state.tailBlock then
        some { state with consumer := .reread }
      else
        some ({ state with consumer := .idle }.record .miss)
  | .reread =>
      let id := state.frontBlock
      let block := state.heap id
      some { state.put id { block with localTail := block.tail } with
        consumer :=
          if block.front ≠ block.tail then .take id block.front
          else .follow id }
  | .follow id =>
      match (state.heap id).next with
      | none => some { state with consumer := .failed }
      | some nextBlock => some { state with consumer := .inspect nextBlock }
  | .inspect id =>
      let block := state.heap id
      -- The tail block is only ever moved on after it was written to.
      if block.front ≠ block.tail then
        some { state.put id { block with localTail := block.tail } with
          consumer := .moveFront id block.front }
      else
        some { state with consumer := .failed }
  | .moveFront id blockFront =>
      some { state with frontBlock := id, consumer := .take id blockFront }
  | .take id blockFront =>
      let block := state.heap id
      match block.data blockFront with
      | none => some { state with consumer := .failed }
      | some element =>
          some { state.put id { block with
              data := Function.update block.data blockFront none } with
            consumer := .release id blockFront element }
  | .release id blockFront element =>
      let block := state.heap id
      some ({ state.put id { block with
          front := block.following blockFront } with
        consumer := .idle }.record (.pop element))
  | .failed => none

def step (maxBlockSize : Nat) (state : State α) : Label α → Option (State α)
  | .enqueue mode element =>
      match state.producer with
      | .idle => some (enqueue state mode element)
      | _ => none
  | .produce memory => produce maxBlockSize memory state
  | .tryDequeue =>
      match state.consumer with
      | .idle => some (tryDequeue state)
      | _ => none
  | .consume => consume state

/-! ## The constructor -/

/-- A power of two that is not less, found by copying the highest bit to all
lower ones. -/
def ceilToPow2 (x : UInt64) : UInt64 :=
  let x := x - 1
  let x := x ||| (x >>> 1)
  let x := x ||| (x >>> 2)
  let x := x ||| (x >>> 4)
  -- The loop shifts by one, two and four bytes.
  let x := [8, 16, 32].foldl (fun (x shift : UInt64) => x ||| (x >>> shift)) x
  x + 1

/-- One round of the loop of the constructor: a block is linked behind the
last one, and back to the first. -/
def appendBlock (size : Nat) (heap : Nat → Block α) (i : Nat) :
    Nat → Block α :=
  let linked :=
    if i = 0 then heap
    else Function.update heap (i - 1) { heap (i - 1) with next := some i }
  Function.update linked i { (Block.make size : Block α) with next := some 0 }

def appendBlocks (size count : Nat) : Nat → Block α :=
  (List.range count).foldl (appendBlock size) fun _ => Block.make size

/-- The size and the number of the blocks a queue starts with. -/
def initialBlocks (maxBlockSize size : Nat) : Nat × Nat :=
  let largestBlockSize := (ceilToPow2 (.ofNat (size + 1))).toNat
  if maxBlockSize * 2 < largestBlockSize then
    (maxBlockSize, (size + maxBlockSize * 2 - 3) / (maxBlockSize - 1))
  else
    (largestBlockSize, 1)

/-- The constructor, when there is memory for the blocks. -/
def State.create (maxBlockSize size : Nat) : State α :=
  let blocks := initialBlocks maxBlockSize size
  { heap := appendBlocks blocks.1 blocks.2
    allocated := blocks.2
    frontBlock := 0
    tailBlock := 0
    largestBlockSize := blocks.1 }

/-! ## The destructor -/

/-- The elements of a block are destroyed, from an index on; nothing is
returned if a slot has none. -/
def destroyElements (block : Block α) : Nat → Nat → Option (List α)
  | 0, _ => none
  | fuel + 1, i =>
      if i = block.tail then some []
      else
        match block.data i with
        | none => none
        | some element =>
            (destroyElements block fuel (block.following i)).map
              (element :: ·)

/-- The elements that are destroyed and the blocks that are freed, from a
block on. -/
def destroyBlocks (state : State α) :
    Nat → Nat → Option (List α × List Nat)
  | 0, _ => none
  | fuel + 1, id => do
      let block := state.heap id
      let nextBlock ← block.next
      let elements ← destroyElements block block.size block.front
      if nextBlock = state.frontBlock then
        some (elements, [id])
      else
        let (others, blocks) ← destroyBlocks state fuel nextBlock
        some (elements ++ others, id :: blocks)

/-- The destructor goes around once. -/
def State.destroy (state : State α) : Option (List α × List Nat) :=
  destroyBlocks state state.allocated state.frontBlock

end Queue
end Walkrie
