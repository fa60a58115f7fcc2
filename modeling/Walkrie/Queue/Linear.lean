import Walkrie.Library.Bits
import Walkrie.Queue.Consume
import Walkrie.Queue.Produce

/-!
# The queue under any interleaving

The constructor establishes the invariant, for every size but zero, and so it
holds after any steps of the two threads, in any order.  The queue then shows
only what a queue with the requested capacity may show, and no assertion of
the source fails.
-/

namespace Walkrie
namespace Queue

variable {α : Type}

/-! ## The constructor -/

theorem ceilToPow2_toNat
    {size : Nat}
    (bounded : size < 2 ^ 63) :
    (ceilToPow2 (.ofNat (size + 1))).toNat = 2 ^ size.size := by
  have start : (UInt64.ofNat (size + 1) - 1).toNat = size := by
    rw [UInt64.toNat_sub_of_le, UInt64.toNat_ofNat_of_lt']
    · rfl
    · exact lt_of_le_of_lt bounded (by decide)
    · rw [UInt64.le_iff_toNat_le, UInt64.toNat_ofNat_of_lt']
      · exact Nat.succ_le_succ (Nat.zero_le size)
      · exact lt_of_le_of_lt bounded (by decide)
  have filled := ((((((Bits.covers_self size).double).double).double).double
    ).double).double.eq_pred (lt_trans bounded (by decide))
  have narrow : 2 ^ size.size ≤ 2 ^ 63 :=
    Nat.pow_le_pow_right (show 0 < 2 by decide) (Nat.size_le.mpr bounded)
  have positive : 0 < 2 ^ size.size := Nat.two_pow_pos _
  unfold ceilToPow2
  simp only [List.foldl_cons, List.foldl_nil, UInt64.toNat_add,
    UInt64.toNat_or, UInt64.toNat_shiftRight, start]
  refine (congrArg (fun filled => (filled + 1) % 2 ^ 64) filled).trans ?_
  show (2 ^ size.size - 1 + 1) % 2 ^ 64 = 2 ^ size.size
  rw [Nat.sub_add_cancel positive]
  exact Nat.mod_eq_of_lt (lt_of_le_of_lt narrow (by decide))

/-- The blocks of the constructor point to each other in a circle. -/
theorem appendBlocks_apply
    (size count : Nat)
    {id : Nat}
    (bound : id < count) :
    (appendBlocks size count id : Block α) =
      { (Block.make size : Block α) with
        next := some (if id + 1 = count then 0 else id + 1) } := by
  induction count with
  | zero => cases bound
  | succ count inductionHypothesis =>
      unfold appendBlocks at inductionHypothesis ⊢
      rw [List.range_succ, List.foldl_append, List.foldl_cons,
        List.foldl_nil]
      simp only [appendBlock]
      by_cases last : id = count
      · rw [last, Function.update_self, if_pos rfl]
      · have earlier : id < count := by omega
        rw [Function.update_of_ne last, if_neg (by omega : count ≠ 0),
          if_neg (by omega : ¬id + 1 = count + 1)]
        by_cases previous : id = count - 1
        · rw [← previous, Function.update_self, inductionHypothesis earlier]
          simp only [Block.mk.injEq, Option.some.injEq, true_and, and_true]
          omega
        · rw [Function.update_of_ne previous, inductionHypothesis earlier,
            if_neg (by omega : ¬id + 1 = count)]

theorem linked_appendBlocks (size count : Nat) :
    Circular.Linked
      (fun id => (appendBlocks size (count + 1) id : Block α).next)
      (0 :: List.range' 1 count) := by
  have range : 0 :: List.range' 1 count = List.range (count + 1) := by
    rw [List.range_eq_range', List.range'_succ]
  refine ⟨by rw [range]; exact List.nodup_range, ?_⟩
  rw [List.head?_cons, Option.toList_some, range,
    List.isChain_iff_getElem]
  intro index bound
  rw [List.length_append, List.length_range, List.length_singleton] at bound
  have inside : index < count + 1 := by omega
  rw [List.getElem_append_left (by rw [List.length_range]; exact inside),
    List.getElem_range]
  show (appendBlocks size (count + 1) index).next = _
  rw [appendBlocks_apply size (count + 1) inside]
  by_cases last : index = count
  · rw [if_pos (by omega), List.getElem_append_right (by simp [last])]
    simp
  · rw [if_neg (by omega), List.getElem_append_left (by simp; omega),
      List.getElem_range]

/-- The sizes the constructor accepts as the largest one of a block. -/
def ValidMax (maxBlockSize : Nat) : Prop :=
  ∃ exponent, 1 ≤ exponent ∧ maxBlockSize = 2 ^ exponent

/-- The blocks the constructor asks for have room for the requested number of
elements, in those that the consumer is not working on. -/
theorem initialBlocks_spec
    {maxBlockSize size : Nat}
    (valid : ValidMax maxBlockSize)
    (positive : 1 ≤ size)
    (bounded : size < 2 ^ 63) :
    ∃ exponent count, 1 ≤ exponent ∧
      initialBlocks maxBlockSize size = (2 ^ exponent, count + 1) ∧
      (size ≤ 2 ^ exponent - 1 ∨ size ≤ count * (2 ^ exponent - 1)) := by
  unfold initialBlocks
  simp only [ceilToPow2_toNat bounded]
  split
  · obtain ⟨exponent, large, rfl⟩ := valid
    have two : 2 ^ 1 ≤ 2 ^ exponent :=
      Nat.pow_le_pow_right (show 0 < 2 by decide) large
    obtain ⟨unit, room, power⟩ : ∃ unit, 1 ≤ unit ∧
        2 ^ exponent = unit + 1 := ⟨2 ^ exponent - 1, by omega, by omega⟩
    refine ⟨exponent, (size + unit - 1) / unit, large, ?_, .inr ?_⟩
    · rw [power, Nat.add_sub_cancel, ← Nat.add_div_right _ room]
      congr 2
      omega
    · rw [power, Nat.add_sub_cancel]
      have remainder := Nat.mod_lt (size + unit - 1) room
      have division := Nat.div_add_mod (size + unit - 1) unit
      rw [Nat.mul_comm] at division
      omega
  · refine ⟨size.size, 0, ?_, rfl, .inl ?_⟩
    · exact Nat.size_pos.mpr positive
    · have fits := Nat.lt_size_self size
      omega

theorem create_arranged
    {maxBlockSize size : Nat}
    (valid : ValidMax maxBlockSize)
    (positive : 1 ≤ size)
    (bounded : size < 2 ^ 63) :
    ∃ unit, Arranged size unit
      (State.create maxBlockSize size : State α) := by
  obtain ⟨exponent, count, large, blocks, enough⟩ :=
    initialBlocks_spec valid positive bounded
  have range : 0 :: List.range' 1 count = List.range (count + 1) := by
    rw [List.range_eq_range', List.range'_succ]
  have members : ∀ id, id ∈ [0] ++ List.range' 1 count ↔ id < count + 1 := by
    intro id
    rw [List.singleton_append, range, List.mem_range]
  refine ⟨2 ^ exponent - 1, [], List.range' 1 count, fun _ => [], false,
    false, ?_⟩
  unfold State.create
  rw [blocks]
  exact {
    shape := {
      linked := linked_appendBlocks _ _
      last := rfl
      counted := fun id => by
        simpa [Producer.owned] using (members id).symm }
    content := {
      holds := by
        intro id member
        show (appendBlocks (2 ^ exponent) (count + 1) id).Holds [] none
        rw [appendBlocks_apply _ _ ((members id).mp member)]
        exact Block.holds_make large _
      filled := fun _ member => by cases member
      packed := fun _ member => by cases member
      spare := fun _ _ => rfl }
    spacious := {
      large := by
        intro id bound
        show _ ≤ (appendBlocks (2 ^ exponent) (count + 1) id).sizeMask
        rw [appendBlocks_apply _ _ bound]
        exact le_rfl
      largest := Nat.sub_lt (Nat.two_pow_pos _) Nat.one_pos
      power := ⟨exponent, large, rfl⟩
      enough := by
        rw [List.nil_append, List.length_range']
        exact enough }
    producer := trivial
    consumer := trivial
    legal := .start }

/-! ## Every run -/

theorem step_arranged
    {capacity unit maxBlockSize : Nat}
    {state after : State α}
    {label : Label α}
    (arranged : Arranged capacity unit state)
    (taken : step maxBlockSize state label = some after) :
    Arranged capacity unit after := by
  cases label with
  | enqueue mode element =>
      obtain ⟨rest, ahead, values, sawEmpty, sawFull, sound⟩ := arranged
      simp only [step] at taken
      split at taken <;> rename_i phase
      · cases taken
        exact ⟨rest, ahead, values, sawEmpty, sawFull,
          sound.enqueue phase mode element⟩
      · cases taken
  | produce memory => exact produce_arranged arranged taken
  | tryDequeue =>
      obtain ⟨rest, ahead, values, sawEmpty, sawFull, sound⟩ := arranged
      simp only [step] at taken
      split at taken <;> rename_i phase
      · cases taken
        exact ⟨rest, ahead, values, sawEmpty, sawFull,
          sound.tryDequeue phase⟩
      · cases taken
  | consume => exact consume_arranged arranged taken

/-- The states of a queue that was constructed for a number of elements. -/
def Reached (maxBlockSize size : Nat) (state : State α) : Prop :=
  Transition.Reachable (step maxBlockSize) (fun _ _ => True)
    (State.create maxBlockSize size) state

theorem arranged_of_reached
    {maxBlockSize size : Nat}
    (valid : ValidMax maxBlockSize)
    (positive : 1 ≤ size)
    (bounded : size < 2 ^ 63)
    {state : State α}
    (reached : Reached maxBlockSize size state) :
    ∃ unit, Arranged size unit state := by
  obtain ⟨unit, initial⟩ := create_arranged valid positive bounded
  exact ⟨unit, Transition.Reachable.invariant reached _ initial
    fun _ _ _ arranged _ taken => step_arranged arranged taken⟩

/-- A thread has run into an assertion, or has used a slot out of turn. -/
def State.hasFailed (state : State α) : Bool :=
  (match state.producer with
    | .failed => true
    | _ => false) ||
  match state.consumer with
  | .failed => true
  | _ => false

theorem Arranged.not_hasFailed
    {capacity unit : Nat}
    {state : State α}
    (arranged : Arranged capacity unit state) :
    state.hasFailed = false := by
  obtain ⟨rest, ahead, values, sawEmpty, sawFull, sound⟩ := arranged
  have producer := sound.producer
  have consumer := sound.consumer
  unfold State.hasFailed
  cases phase : state.producer <;> cases other : state.consumer <;>
    first
    | rfl
    | (rw [phase] at producer; exact producer.elim)
    | (rw [other] at consumer; exact consumer.elim)

/-- Whatever the two threads do, the queue shows only what a queue may show
that holds as many elements as were asked for without more memory. -/
theorem legal_of_reached
    {maxBlockSize size : Nat}
    (valid : ValidMax maxBlockSize)
    (positive : 1 ≤ size)
    (bounded : size < 2 ^ 63)
    {state : State α}
    (reached : Reached maxBlockSize size state) :
    ∃ memory, Fifo.Legal size state.trace memory := by
  obtain ⟨unit, rest, ahead, values, sawEmpty, sawFull, sound⟩ :=
    arranged_of_reached valid positive bounded reached
  exact ⟨_, sound.legal⟩

theorem validMax_default : ValidMax 512 :=
  ⟨9, by decide, rfl⟩

/-- One call of `enqueue` by itself, with the steps it takes. -/
def enqueueAlone (element : α) (steps : Nat) : List (Label α) :=
  .enqueue .canAlloc element :: List.replicate steps (.produce true)

/-- One call of `try_dequeue` by itself. -/
def dequeueAlone (steps : Nat) : List (Label α) :=
  .tryDequeue :: List.replicate steps .consume

/-- Two elements, of which the second one is put in while the first one is
taken, and a last look. -/
def sampleCalls : List (Label Nat) :=
  enqueueAlone 1 2 ++ [.tryDequeue, .enqueue .canAlloc 2, .consume,
    .produce true, .consume, .produce true, .consume] ++
    dequeueAlone 3 ++ dequeueAlone 2

theorem legal_sampleCalls :
    ∃ state : State Nat, Reached 512 15 state ∧
      state.trace = [.push 1, .look, .push 2, .pop 1, .look, .pop 2, .look,
        .miss] ∧
      ∃ memory, Fifo.Legal 15 state.trace memory := by
  obtain ⟨state, reached, trace⟩ := Transition.exists_reachable_of_run
    (fun _ _ => True) sampleCalls (fun _ _ _ => trivial)
    (show ((Transition.run (step 512) (State.create 512 15)
      sampleCalls).any fun state => state.trace = [.push 1, .look, .push 2,
        .pop 1, .look, .pop 2, .look, .miss]) = true by decide)
  exact ⟨state, reached, of_decide_eq_true trace,
    legal_of_reached validMax_default (by decide) (by decide) reached⟩

/-- A queue that was constructed for no elements, whose first block has a
single slot, is put to use again once it is free. -/
def reuseEmptyBlock : List (Label Nat) :=
  enqueueAlone 1 5 ++ dequeueAlone 8 ++ enqueueAlone 2 3 ++
    enqueueAlone 3 6 ++ dequeueAlone 3 ++ dequeueAlone 5

/-- No assertion fails and no slot is used out of turn, under any
interleaving, if and only if the queue was constructed for an element at
least. -/
theorem never_fails_iff
    {size : Nat}
    (bounded : size < 2 ^ 63) :
    (∀ (α : Type) (state : State α), Reached 512 size state →
      state.hasFailed = false) ↔ 1 ≤ size := by
  constructor
  · intro safe
    by_contra unsized
    obtain rfl : size = 0 := by omega
    obtain ⟨state, reached, failed⟩ := Transition.exists_reachable_of_run
      (fun _ _ => True) reuseEmptyBlock (fun _ _ _ => trivial)
      (show ((Transition.run (step 512) (State.create 512 0)
        reuseEmptyBlock).any State.hasFailed) = true by decide +kernel)
    rw [safe Nat state reached] at failed
    cases failed
  · intro positive α state reached
    obtain ⟨unit, arranged⟩ :=
      arranged_of_reached validMax_default positive bounded reached
    exact arranged.not_hasFailed

/-- The size that the dispatcher leaves as it is. -/
theorem never_fails_default :
    15 < 2 ^ 63 ∧ ∀ (α : Type) (state : State α), Reached 512 15 state →
      state.hasFailed = false :=
  ⟨by decide, (never_fails_iff (by decide)).mpr (by decide)⟩

/-! ## The destructor -/

/-- The elements of a block are destroyed in order, from any of them on. -/
theorem destroyElements_eq
    {block : Block α}
    {values : List α}
    (holds : block.Holds (values.map some) none)
    {before after : List α}
    (split : values = before ++ after)
    {fuel : Nat}
    (enough : after.length < fuel) :
    destroyElements block fuel ((block.front + before.length) % block.size) =
      some after := by
  have short := holds.short
  rw [List.length_map] at short
  have tail : block.tail = (block.front + values.length) % block.size := by
    rw [holds.tail_eq, List.length_map]
  induction after generalizing before fuel with
  | nil =>
      obtain ⟨fuel, rfl⟩ := Nat.exists_eq_add_of_lt enough
      rw [List.append_nil] at split
      rw [← split, ← tail]
      simp [destroyElements]
  | cons element after inductionHypothesis =>
      obtain ⟨fuel, rfl⟩ : ∃ more, fuel = more + 1 :=
        Nat.exists_eq_succ_of_ne_zero (by omega)
      have length : values.length = before.length + after.length + 1 := by
        rw [split, List.length_append, List.length_cons, Nat.add_assoc]
      have inside : before.length < block.size := by omega
      have differs : (block.front + before.length) % block.size ≠
          block.tail := by
        rw [tail]
        intro same
        have equal := Circular.offset_inj inside short same
        omega
      have slot : block.data ((block.front + before.length) % block.size) =
          some element := by
        rw [holds.stores _ inside, split]
        simp
      have next : block.following
          ((block.front + before.length) % block.size) =
          (block.front + (before ++ [element]).length) % block.size := by
        rw [Block.following_eq holds.power, Nat.mod_add_mod,
          List.length_append, List.length_singleton, Nat.add_assoc]
      rw [destroyElements, if_neg differs, slot]
      simp only [next]
      rw [inductionHypothesis (by rw [split]; simp)
        (by rw [List.length_cons] at enough; omega)]
      rfl

/-- The destructor goes through the rest of the circle. -/
theorem destroyBlocks_eq
    {state : State α}
    {values : Nat → List α}
    {ring : List Nat}
    (linked : Circular.Linked (fun id => (state.heap id).next) ring)
    (head : ring.head? = some state.frontBlock)
    (holds : ∀ id ∈ ring, (state.heap id).Holds ((values id).map some) none)
    {before after : List Nat}
    {id : Nat}
    (split : ring = before ++ id :: after)
    {fuel : Nat}
    (enough : after.length < fuel) :
    destroyBlocks state fuel id =
      some ((id :: after).flatMap values, id :: after) := by
  have destroyed : ∀ other ∈ ring, destroyElements (state.heap other)
      (state.heap other).size (state.heap other).front =
        some (values other) := by
    intro other member
    have block := holds other member
    have short := block.short
    rw [List.length_map] at short
    have all := destroyElements_eq block (List.nil_append _).symm short
    rwa [List.length_nil, block.front_mod] at all
  induction after generalizing before id fuel with
  | nil =>
      obtain ⟨fuel, rfl⟩ : ∃ more, fuel = more + 1 :=
        Nat.exists_eq_succ_of_ne_zero (by omega)
      have pointer : (state.heap id).next = some state.frontBlock := by
        rw [split] at linked head
        exact linked.next_last head
      rw [destroyBlocks, destroyed id (by rw [split]; simp), pointer]
      simp
  | cons next after inductionHypothesis =>
      obtain ⟨fuel, rfl⟩ : ∃ more, fuel = more + 1 :=
        Nat.exists_eq_succ_of_ne_zero (by omega)
      have pointer : (state.heap id).next = some next := by
        rw [split] at linked
        exact linked.next_of_append
      -- The circle is closed by its first block only.
      have apart : next ≠ state.frontBlock := by
        rintro rfl
        have distinct := linked.1
        rw [split] at distinct head
        have late := (List.nodup_append.mp distinct).2
        cases before with
        | nil =>
            obtain rfl : id = state.frontBlock := Option.some.inj head
            simp at late
        | cons first before =>
            obtain rfl : first = state.frontBlock := Option.some.inj head
            exact late.2 _ List.mem_cons_self _ (by simp) rfl
      rw [destroyBlocks, destroyed id (by rw [split]; simp), pointer]
      have rest : destroyBlocks state fuel next = _ := inductionHypothesis
        (show ring = (before ++ [id]) ++ next :: after by rw [split]; simp)
        (by rw [List.length_cons] at enough; omega)
      simp [apart, rest]

/-- No call is going on. -/
def State.isIdle (state : State α) : Bool :=
  match state.producer, state.consumer with
  | .idle, .idle => true
  | _, _ => false

theorem State.isIdle_iff (state : State α) :
    state.isIdle = true ↔
      state.producer = .idle ∧ state.consumer = .idle := by
  unfold isIdle
  cases state.producer <;> cases state.consumer <;> simp

/-- When the threads are done, the destructor destroys the elements that were
put in and not taken out, in order, and frees every block once. -/
theorem destroy_of_reached
    {maxBlockSize size : Nat}
    (valid : ValidMax maxBlockSize)
    (positive : 1 ≤ size)
    (bounded : size < 2 ^ 63)
    {state : State α}
    (reached : Reached maxBlockSize size state)
    (idle : state.isIdle = true) :
    ∃ elements blocks, state.destroy = some (elements, blocks) ∧
      Fifo.pushed state.trace = Fifo.popped state.trace ++ elements ∧
      blocks.Perm (List.range state.allocated) := by
  obtain ⟨unit, rest, ahead, values, sawEmpty, sawFull, sound⟩ :=
    arranged_of_reached valid positive bounded reached
  obtain ⟨shape, content, _, _, _, legal⟩ := sound
  obtain ⟨produced, consumed⟩ := state.isIdle_iff.mp idle
  rw [produced] at shape content
  rw [consumed] at content legal
  have blocks : (state.frontBlock :: rest ++ ahead).Perm
      (List.range state.allocated) := by
    refine (List.perm_ext_iff_of_nodup shape.nodup List.nodup_range).mpr ?_
    intro id
    rw [List.mem_range, shape.counted id]
    simp [Producer.owned]
  have length := blocks.length_eq
  rw [List.length_range, List.cons_append, List.length_cons] at length
  have spare : ahead.flatMap values = [] :=
    List.flatMap_eq_nil_iff.mpr content.spare
  refine ⟨(state.frontBlock :: rest ++ ahead).flatMap values, _,
    destroyBlocks_eq shape.linked rfl content.holds
      (List.nil_append _).symm ?_, ?_, blocks⟩
  · show (rest ++ ahead).length < state.allocated
    omega
  · rw [List.flatMap_append, spare, List.append_nil]
    exact legal.pushed_eq

/-- Four elements in a queue for one, of which one is taken again. -/
def sampleFilled : List (Label Nat) :=
  enqueueAlone 1 2 ++ enqueueAlone 2 5 ++ enqueueAlone 3 2 ++
    enqueueAlone 4 2 ++ dequeueAlone 3

theorem destroy_sampleFilled :
    ∃ state : State Nat, Reached 512 1 state ∧
      Fifo.popped state.trace = [1] ∧ state.allocated = 2 ∧
      ∃ blocks, state.destroy = some ([2, 3, 4], blocks) ∧
        blocks.Perm [0, 1] := by
  obtain ⟨state, reached, tested⟩ := Transition.exists_reachable_of_run
    (fun _ _ => True) sampleFilled (fun _ _ _ => trivial)
    (show ((Transition.run (step 512) (State.create 512 1)
      sampleFilled).any fun state => state.isIdle &&
        decide (Fifo.pushed state.trace = [1, 2, 3, 4] ∧
          Fifo.popped state.trace = [1] ∧ state.allocated = 2)) = true by
      decide +kernel)
  rw [Bool.and_eq_true, decide_eq_true_iff] at tested
  obtain ⟨idle, pushed, popped, allocated⟩ := tested
  obtain ⟨elements, blocks, destroyed, split, perm⟩ := destroy_of_reached
    validMax_default (by decide) (by decide) reached idle
  rw [pushed, popped, List.singleton_append] at split
  rw [allocated] at perm
  obtain rfl : [2, 3, 4] = elements := List.tail_eq_of_cons_eq split
  exact ⟨state, reached, popped, allocated, blocks, destroyed, perm⟩

end Queue
end Walkrie
