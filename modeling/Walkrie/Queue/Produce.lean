import Walkrie.Queue.Invariant

/-!
# The steps of the producer

Every step of `inner_enqueue` keeps the invariant.  The element counts from
the step that lets the consumer see it: the store to `tail`, or that to
`tailBlock` when it went into another block.
-/

namespace Walkrie
namespace Queue

variable {α : Type}
variable {capacity unit : Nat}
variable {state : State α}
variable {rest ahead : List Nat}
variable {values : Nat → List α}
variable {sawEmpty sawFull : Bool}

section Quiet

variable {mode : AllocationMode}
variable {element : α}
variable {id blockTail : Nat}

theorem quiet_idle : (Producer.idle : Producer α).Quiet :=
  ⟨rfl, fun _ => rfl, fun _ => rfl⟩

theorem quiet_reload : (Producer.reload mode element id blockTail).Quiet :=
  ⟨rfl, fun _ => rfl, fun _ => rfl⟩

theorem quiet_construct : (Producer.construct element id blockTail).Quiet :=
  ⟨rfl, fun _ => rfl, fun _ => rfl⟩

theorem quiet_full : (Producer.full mode element id).Quiet :=
  ⟨rfl, fun _ => rfl, fun _ => rfl⟩

theorem quiet_advance : (Producer.advance element id).Quiet :=
  ⟨rfl, fun _ => rfl, fun _ => rfl⟩

theorem quiet_constructNext :
    (Producer.constructNext element id blockTail).Quiet :=
  ⟨rfl, fun _ => rfl, fun _ => rfl⟩

theorem quiet_allocate : (Producer.allocate element id).Quiet :=
  ⟨rfl, fun _ => rfl, fun _ => rfl⟩

end Quiet

namespace Sound

/-- The producer only thinks. -/
theorem think
    (sound : Sound capacity unit state rest ahead values sawEmpty sawFull)
    {next : Producer α}
    {trace : List (Fifo.Event α)}
    {seesFull : Bool}
    (before : state.producer.Quiet)
    (after : next.Quiet)
    (knows : next.Sound state.heap state.frontBlock state.tailBlock rest
      ahead values seesFull)
    (legal : Fifo.Legal capacity trace
      ⟨state.consumer.moved ++ (state.frontBlock :: rest).flatMap values,
        sawEmpty, seesFull⟩) :
    Sound capacity unit { state with producer := next, trace } rest ahead
      values sawEmpty seesFull where
  shape := sound.shape.congr (fun _ => rfl)
    (after.owned.trans before.owned.symm)
  content := sound.content.congr rfl
    (funext fun id => (after.pending id).trans (before.pending id).symm)
    (funext fun id => (after.reserved id).trans (before.reserved id).symm)
  spacious := sound.spacious
  producer := knows
  consumer := sound.consumer
  legal := legal

theorem enqueue
    (sound : Sound capacity unit state rest ahead values sawEmpty sawFull)
    (phase : state.producer = .idle)
    (mode : AllocationMode)
    (element : α) :
    Sound capacity unit (enqueue state mode element) rest ahead values
      sawEmpty sawFull := by
  have quiet : state.producer.Quiet := phase ▸ quiet_idle
  unfold Queue.enqueue
  dsimp only
  split <;> rename_i room
  · exact sound.think quiet quiet_construct ⟨rfl, rfl, room⟩ sound.legal
  · exact sound.think quiet quiet_reload ⟨rfl, rfl⟩ sound.legal

/-- The producer writes to a block, but not to what the consumer reads
without looking at `tail`. -/
theorem write
    (sound : Sound capacity unit state rest ahead values sawEmpty sawFull)
    {id : Nat}
    {block : Block α}
    {next : Producer α}
    {trace : List (Fifo.Event α)}
    {changed : Nat → List α}
    {seesFull : Bool}
    (unread : block.front = (state.heap id).front ∧
      block.localTail = (state.heap id).localTail ∧
      block.next = (state.heap id).next ∧
      block.sizeMask = (state.heap id).sizeMask)
    (owned : next.owned = state.producer.owned)
    (elsewhere : ∀ other, other ≠ id →
      changed other = values other ∧
        next.pending other = state.producer.pending other ∧
        next.reserved other = state.producer.reserved other)
    (here : id ∈ state.frontBlock :: rest ++ ahead →
      block.Holds (state.consumer.hole id ++ (changed id).map some)
        (next.pending id))
    (filled : id ∈ rest → changed id ≠ [])
    (packed : id ∈ rest.dropLast → (changed id).length = block.sizeMask)
    (spare : id ∈ ahead → changed id = next.reserved id)
    (kept : rest ≠ [] → changed state.frontBlock = values state.frontBlock)
    (knows : next.Sound (Function.update state.heap id block)
      state.frontBlock state.tailBlock rest ahead changed seesFull)
    (legal : Fifo.Legal capacity trace
      ⟨state.consumer.moved ++ (state.frontBlock :: rest).flatMap changed,
        sawEmpty, seesFull⟩) :
    Sound capacity unit { state.put id block with producer := next, trace }
      rest ahead changed sawEmpty seesFull := by
  obtain ⟨front, localTail, pointer, mask⟩ := unread
  have same : ∀ other,
      (Function.update state.heap id block other).front =
          (state.heap other).front ∧
        (Function.update state.heap id block other).localTail =
          (state.heap other).localTail ∧
        (Function.update state.heap id block other).next =
          (state.heap other).next ∧
        (Function.update state.heap id block other).sizeMask =
          (state.heap other).sizeMask := by
    intro other
    by_cases equal : other = id
    · subst equal
      rw [Function.update_self]
      exact ⟨front, localTail, pointer, mask⟩
    · rw [Function.update_of_ne equal]
      exact ⟨rfl, rfl, rfl, rfl⟩
  exact {
    shape := sound.shape.congr (fun other => (same other).2.2.1) owned
    content := by
      refine sound.content.change id (fun other apart => ?_) ?_ filled ?_
        spare
      · obtain ⟨lists, pendings, reserves⟩ := elsewhere other apart
        exact ⟨Function.update_of_ne apart _ _, lists, rfl, pendings,
          reserves⟩
      · intro member
        show (Function.update state.heap id block id).Holds _ _
        rw [Function.update_self]
        exact here member
      · intro member
        show _ = (Function.update state.heap id block id).sizeMask
        rw [Function.update_self]
        exact packed member
    spacious := {
      large := by
        intro other bound
        show unit ≤ (Function.update state.heap id block other).sizeMask
        rw [(same other).2.2.2]
        exact sound.spacious.large other bound
      largest := sound.spacious.largest
      power := sound.spacious.power
      enough := sound.spacious.enough }
    producer := knows
    consumer := sound.consumer.mono
      (fun other _ => ⟨(same other).1, (same other).2.1⟩)
      (List.prefix_refl rest) kept
    legal := legal }

/-- The number of elements in the blocks that have no room. -/
theorem length_le_of_packed
    {heap : Nat → Block α}
    {blocks : List Nat}
    (large : ∀ id ∈ blocks, unit ≤ (heap id).sizeMask)
    (packed : ∀ id ∈ blocks, (values id).length = (heap id).sizeMask) :
    blocks.length * unit ≤ (blocks.flatMap values).length := by
  induction blocks with
  | nil => simp
  | cons first blocks inductionHypothesis =>
      have here := large first List.mem_cons_self
      have rest := inductionHypothesis
        (fun id member => large id (List.mem_cons_of_mem first member))
        (fun id member => packed id (List.mem_cons_of_mem first member))
      rw [List.length_cons, Nat.succ_mul, List.flatMap_cons,
        List.length_append, packed first List.mem_cons_self]
      omega

/-- The tail block holds an element in every slot but one. -/
theorem stuffed
    (sound : Sound capacity unit state rest ahead values sawEmpty sawFull)
    (full : (state.consumer.hole state.tailBlock ++
        (values state.tailBlock).map some).length =
      (state.heap state.tailBlock).sizeMask) :
    Stuffed state.heap state.tailBlock rest values := by
  intro member
  have apart : state.tailBlock ≠ state.frontBlock := fun same =>
    sound.shape.front_notMem (same ▸ member)
  rw [sound.consumer.hole_eq_nil apart, List.nil_append,
    List.length_map] at full
  exact full

/-- If there is no free block either, then the queue is full. -/
theorem capacity_le
    (sound : Sound capacity unit state rest [] values sawEmpty sawFull)
    (full : (state.consumer.hole state.tailBlock ++
        (values state.tailBlock).map some).length =
      (state.heap state.tailBlock).sizeMask) :
    capacity ≤ (state.consumer.moved ++
      (state.frontBlock :: rest).flatMap values).length := by
  have large : ∀ id ∈ state.frontBlock :: rest,
      unit ≤ (state.heap id).sizeMask := by
    intro id member
    refine sound.spacious.large id ((sound.shape.counted id).mpr (.inl ?_))
    rw [List.append_nil]
    exact member
  have enough := sound.spacious.enough
  rw [List.append_nil] at enough
  rw [List.length_append, List.flatMap_cons, List.length_append]
  by_cases alone : rest = []
  · -- The consumer is in the same block, and may have taken an element whose
    -- slot it has not given back.
    have same := sound.shape.front_eq_tail_iff.mpr alone
    have here := large state.frontBlock List.mem_cons_self
    have moved := state.consumer.length_hole_le state.frontBlock
    subst alone
    rw [← same, List.length_append, List.length_map] at full
    rw [List.length_nil, Nat.zero_mul] at enough
    omega
  · have packed : ∀ id ∈ rest,
        (values id).length = (state.heap id).sizeMask := by
      intro id member
      rcases sound.shape.mem_dropLast member with early | rfl
      · exact sound.content.packed id early
      · exact sound.stuffed full member
    have others := length_le_of_packed
      (fun id member => large id (List.mem_cons_of_mem _ member)) packed
    have one : 1 * unit ≤ rest.length * unit :=
      Nat.mul_le_mul_right unit (List.length_pos_iff.mpr alone)
    omega

/-- What the tail block holds. -/
theorem holds_tail
    (sound : Sound capacity unit state rest ahead values sawEmpty sawFull) :
    (state.heap state.tailBlock).Holds
      (state.consumer.hole state.tailBlock ++
        (values state.tailBlock).map some)
      (state.producer.pending state.tailBlock) :=
  sound.content.holds _ (List.mem_append_left ahead sound.shape.tail_mem)

/-- The producer reads the front of a block again. -/
theorem reloadFront
    (sound : Sound capacity unit state rest ahead values sawEmpty sawFull)
    {id : Nat}
    {next : Producer α}
    {trace : List (Fifo.Event α)}
    {seesFull : Bool}
    (before : state.producer.Quiet)
    (after : next.Quiet)
    (knows : next.Sound
      (Function.update state.heap id
        { state.heap id with localFront := (state.heap id).front })
      state.frontBlock state.tailBlock rest ahead values seesFull)
    (legal : Fifo.Legal capacity trace
      ⟨state.consumer.moved ++ (state.frontBlock :: rest).flatMap values,
        sawEmpty, seesFull⟩) :
    Sound capacity unit
      { state.put id
          { state.heap id with localFront := (state.heap id).front } with
        producer := next
        trace }
      rest ahead values sawEmpty seesFull := by
  refine sound.write ⟨rfl, rfl, rfl, rfl⟩ (after.owned.trans before.owned.symm)
    (fun other _ => ⟨rfl, ?_, ?_⟩) (fun member => ?_)
    (sound.content.filled id) (sound.content.packed id) (fun member => ?_)
    (fun _ => rfl) knows legal
  · rw [after.pending, before.pending]
  · rw [after.reserved, before.reserved]
  · rw [after.pending, ← before.pending id]
    exact (sound.content.holds id member).reloadFront
  · rw [after.reserved, ← before.reserved id]
    exact sound.content.spare id member

theorem reload
    (sound : Sound capacity unit state rest ahead values sawEmpty sawFull)
    {mode : AllocationMode}
    {element : α}
    {id blockTail : Nat}
    (phase : state.producer = .reload mode element id blockTail) :
    Arranged capacity unit
      ({ state.put id
          { state.heap id with localFront := (state.heap id).front } with
        producer :=
          if (state.heap id).following blockTail ≠
              (state.heap id).front then
            .construct element id blockTail
          else
            .full mode element id }.record .measure) := by
  have holds := sound.holds_tail
  have knows := sound.producer
  rw [phase] at knows
  obtain ⟨rfl, rfl⟩ := knows
  have quiet : state.producer.Quiet := phase ▸ quiet_reload
  split <;> rename_i room
  · refine ⟨rest, ahead, values, sawEmpty, _, sound.reloadFront quiet
      quiet_construct ⟨rfl, ?_, ?_⟩ (sound.legal.next .measure)⟩
    · rw [Function.update_self]
    · rw [Function.update_self]
      exact room
  · have full := holds.full (not_not.mp room)
    refine ⟨rest, ahead, values, sawEmpty, _, sound.reloadFront quiet
      quiet_full ⟨rfl, ?_, ?_⟩ (sound.legal.next .measure)⟩
    · exact (sound.stuffed full).congr (by rw [Function.update_self]) rfl
    · by_cases free : ahead = []
      · subst free
        exact .inl (decide_eq_true (sound.capacity_le full))
      · exact .inr free

/-- An element is constructed behind the last one of a block. -/
theorem constructAt
    (sound : Sound capacity unit state rest ahead values sawEmpty sawFull)
    {element : α}
    {id blockTail : Nat}
    {next : Producer α}
    (quiet : state.producer.Quiet)
    (member : id ∈ state.frontBlock :: rest ++ ahead)
    (read : blockTail = (state.heap id).tail)
    (owned : next.owned = [])
    (pending : ∀ other, next.pending other =
      if other = id then some element else none)
    (reserved : ∀ other, next.reserved other = [])
    (knows : ∀ block : Block α,
      block.tail = (state.heap id).tail →
      block.sizeMask = (state.heap id).sizeMask →
      block.localFront = (state.heap id).localFront →
      next.Sound (Function.update state.heap id block) state.frontBlock
        state.tailBlock rest ahead values sawFull) :
    Sound capacity unit (constructAt state element id blockTail next) rest
      ahead values sawEmpty sawFull := by
  have holds := sound.content.holds id member
  rw [quiet.pending] at holds
  subst read
  unfold Queue.constructAt
  dsimp only
  rw [holds.data_tail]
  refine sound.write ⟨rfl, rfl, rfl, rfl⟩ (owned.trans quiet.owned.symm)
    (fun other apart => ⟨rfl, ?_, ?_⟩) (fun _ => ?_)
    (sound.content.filled id) (sound.content.packed id) (fun free => ?_)
    (fun _ => rfl) (knows _ rfl rfl rfl) sound.legal
  · rw [pending, if_neg apart, quiet.pending]
  · rw [reserved, quiet.reserved]
  · rw [pending, if_pos rfl]
    exact holds.construct element
  · rw [reserved, ← quiet.reserved id]
    exact sound.content.spare id free

theorem construct
    (sound : Sound capacity unit state rest ahead values sawEmpty sawFull)
    {element : α}
    {id blockTail : Nat}
    (phase : state.producer = .construct element id blockTail) :
    Sound capacity unit
      (Queue.constructAt state element id blockTail
        (.publish element id blockTail)) rest ahead values sawEmpty
      sawFull := by
  have knows := sound.producer
  rw [phase] at knows
  obtain ⟨rfl, read, room⟩ := knows
  refine sound.constructAt (phase ▸ quiet_construct)
    (List.mem_append_left ahead sound.shape.tail_mem) read rfl
    (fun _ => rfl) (fun _ => rfl) fun block tail mask front => ⟨rfl, ?_, ?_⟩
  · rw [Function.update_self, read, tail]
  · rw [Function.update_self, front]
    simpa only [Block.following, mask] using room

/-- The elements, when one is added to the tail block. -/
theorem flatMap_push
    (shape : Shape state.heap state.frontBlock state.tailBlock
      state.allocated rest ahead state.producer.owned)
    (element : α) :
    (state.frontBlock :: rest).flatMap
        (Function.update values state.tailBlock
          (values state.tailBlock ++ [element])) =
      (state.frontBlock :: rest).flatMap values ++ [element] := by
  obtain ⟨before, split⟩ := shape.split
  have distinct := (List.nodup_append.mp shape.nodup).1
  rw [split] at distinct ⊢
  have absent : state.tailBlock ∉ before := fun member =>
    (List.nodup_append.mp distinct).2.2 _ member _
      (List.mem_singleton_self _) rfl
  rw [List.flatMap_append, List.flatMap_append,
    Content.flatMap_update absent,
    List.flatMap_singleton, List.flatMap_singleton, Function.update_self,
    List.append_assoc]

theorem publish
    (sound : Sound capacity unit state rest ahead values sawEmpty sawFull)
    {element : α}
    {id blockTail : Nat}
    (phase : state.producer = .publish element id blockTail) :
    Arranged capacity unit
      ({ state.put id
          { state.heap id with
            tail := (state.heap id).following blockTail } with
        producer := .idle }.record (.push element)) := by
  have holds := sound.holds_tail
  have knows := sound.producer
  rw [phase] at knows holds
  obtain ⟨rfl, rfl, room⟩ := knows
  have member := List.mem_append_left ahead sound.shape.tail_mem
  have pending : (Producer.publish element state.tailBlock
      (state.heap state.tailBlock).tail).pending state.tailBlock =
      some element := if_pos rfl
  rw [pending] at holds
  refine ⟨rest, ahead, Function.update values state.tailBlock
    (values state.tailBlock ++ [element]), sawEmpty, false,
    sound.write ⟨rfl, rfl, rfl, rfl⟩ (by rw [phase]; rfl)
      (fun other apart => ⟨Function.update_of_ne apart _ _, ?_, ?_⟩)
      (fun _ => ?_) (fun _ => ?_) (fun early => ?_) (fun free => ?_)
      (fun several => ?_) trivial ?_⟩
  · rw [phase]
    exact (if_neg apart).symm
  · rw [phase]
    rfl
  · rw [Function.update_self, List.map_append, ← List.append_assoc]
    exact holds.publish room
  · rw [Function.update_self]
    simp
  · exact absurd early sound.shape.tail_notMem_dropLast
  · exact absurd sound.shape.tail_mem (sound.shape.ahead_notMem free)
  · refine Function.update_of_ne (fun same => several ?_) _ _
    exact sound.shape.front_eq_tail_iff.mp same
  · rw [flatMap_push sound.shape, ← List.append_assoc]
    exact sound.legal.next (.push element)

/-! ## Another block -/

/-- A producer that finds its block full knows whether there is a free one. -/
theorem full
    (sound : Sound capacity unit state rest ahead values sawEmpty sawFull)
    {mode : AllocationMode}
    {element : α}
    {id : Nat}
    (phase : state.producer = .full mode element id) :
    if (state.heap id).next ≠ some state.frontBlock then
      Arranged capacity unit { state with producer := .advance element id }
    else
      Arranged capacity unit
          { state with producer := .allocate element id } ∧
        Arranged capacity unit
          ({ state with producer := .idle }.record (.refuse element)) := by
  have quiet : state.producer.Quiet := phase ▸ quiet_full
  have knows := sound.producer
  rw [phase] at knows
  obtain ⟨rfl, stuffed, saw⟩ := knows
  cases ahead with
  | nil =>
      rw [if_neg (not_not.mpr sound.shape.next_tail_nil)]
      have saw : sawFull = true := saw.resolve_right (fun free => free rfl)
      subst saw
      exact ⟨⟨rest, [], values, sawEmpty, true,
        sound.think quiet quiet_allocate ⟨rfl, stuffed, rfl⟩ sound.legal⟩,
        ⟨rest, [], values, sawEmpty, false,
          sound.think quiet quiet_idle trivial
            (sound.legal.next (.refuse element))⟩⟩
  | cons first free =>
      have apart : first ≠ state.frontBlock := fun same =>
        sound.shape.ahead_notMem List.mem_cons_self
          (same ▸ List.mem_cons_self)
      rw [if_pos (by rw [sound.shape.next_tail]; simpa using apart)]
      exact ⟨rest, first :: free, values, sawEmpty, sawFull,
        sound.think quiet quiet_advance
          ⟨rfl, stuffed, List.cons_ne_nil first free⟩ sound.legal⟩

/-- A block behind the tail block is not the front block, and has what the
producer has put there. -/
theorem holds_ahead
    (sound : Sound capacity unit state rest ahead values sawEmpty sawFull)
    {id : Nat}
    (member : id ∈ ahead) :
    (state.heap id).Holds ((state.producer.reserved id).map some)
      (state.producer.pending id) := by
  have apart : id ≠ state.frontBlock := fun same =>
    sound.shape.ahead_notMem member (same ▸ List.mem_cons_self)
  have holds := sound.content.holds id (List.mem_append_right _ member)
  rw [sound.consumer.hole_eq_nil apart, sound.content.spare id member] at holds
  exact holds

/-- The free block that the producer goes on to is empty. -/
theorem advance
    (sound : Sound capacity unit state rest ahead values sawEmpty sawFull)
    {element : α}
    {id : Nat}
    (phase : state.producer = .advance element id) :
    ∃ next, (state.heap id).next = some next ∧
      (state.heap next).front = (state.heap next).tail ∧
      Arranged capacity unit
        { state.put next { state.heap next with
            localFront := (state.heap next).front } with
          producer := .constructNext element next
            (state.heap next).tail } := by
  have knows := sound.producer
  rw [phase] at knows
  obtain ⟨rfl, stuffed, nonempty⟩ := knows
  obtain ⟨next, free, rfl⟩ := List.exists_cons_of_ne_nil nonempty
  have holds := sound.holds_ahead List.mem_cons_self
  have apart : state.tailBlock ≠ next := fun same =>
    sound.shape.ahead_notMem List.mem_cons_self
      (same ▸ sound.shape.tail_mem)
  have quiet : state.producer.Quiet := phase ▸ quiet_advance
  rw [quiet.reserved, List.map_nil] at holds
  refine ⟨next, sound.shape.next_tail, holds.front_eq_tail_iff.mpr rfl,
    rest, next :: free, values, sawEmpty, sawFull,
    sound.reloadFront quiet quiet_constructNext
      ⟨?_, rfl, ?_, ?_⟩ sound.legal⟩
  · exact stuffed.congr (by rw [Function.update_of_ne apart]) rfl
  · rw [Function.update_self]
  · rw [Function.update_self]
    exact holds.following_ne

theorem constructNext
    (sound : Sound capacity unit state rest ahead values sawEmpty sawFull)
    {element : α}
    {id blockTail : Nat}
    (phase : state.producer = .constructNext element id blockTail) :
    Sound capacity unit
      (Queue.constructAt state element id blockTail
        (.publishNext element id blockTail)) rest ahead values sawEmpty
      sawFull := by
  have knows := sound.producer
  rw [phase] at knows
  obtain ⟨stuffed, head, read, room⟩ := knows
  have free := List.mem_of_head? head
  have apart : state.tailBlock ≠ id := fun same =>
    sound.shape.ahead_notMem free (same ▸ sound.shape.tail_mem)
  refine sound.constructAt (phase ▸ quiet_constructNext)
    (List.mem_append_right _ free) read rfl (fun _ => rfl) (fun _ => rfl)
    fun block tail mask front => ⟨?_, head, ?_, ?_⟩
  · exact stuffed.congr (by rw [Function.update_of_ne apart]) rfl
  · rw [Function.update_self, read, tail]
  · rw [Function.update_self, front]
    simpa only [Block.following, mask] using room

theorem publishNext
    (sound : Sound capacity unit state rest ahead values sawEmpty sawFull)
    {element : α}
    {id blockTail : Nat}
    (phase : state.producer = .publishNext element id blockTail) :
    Arranged capacity unit
      { state.put id
          { state.heap id with
            tail := (state.heap id).following blockTail } with
        producer := .moveTail element id } := by
  have knows := sound.producer
  rw [phase] at knows
  obtain ⟨stuffed, head, rfl, room⟩ := knows
  have free := List.mem_of_head? head
  have absent := sound.shape.ahead_notMem free
  have holds := sound.holds_ahead free
  rw [phase] at holds
  have pending : (Producer.publishNext element id
      (state.heap id).tail).pending id = some element := if_pos rfl
  rw [pending] at holds
  have apart : state.tailBlock ≠ id := fun same =>
    absent (same ▸ sound.shape.tail_mem)
  have hole := sound.consumer.hole_eq_nil
    (fun same => absent (same ▸ List.mem_cons_self))
  refine ⟨rest, ahead, Function.update values id [element], sawEmpty,
    sawFull, sound.write ⟨rfl, rfl, rfl, rfl⟩ (by rw [phase]; rfl)
      (fun other apart => ⟨Function.update_of_ne apart _ _, ?_, ?_⟩)
      (fun _ => ?_) (fun _ => ?_) (fun early => ?_) (fun _ => ?_)
      (fun _ => ?_) ⟨?_, head⟩ ?_⟩
  · rw [phase]
    exact (if_neg apart).symm
  · rw [phase]
    exact if_neg apart
  · rw [Function.update_self, hole]
    exact holds.publish room
  · rw [Function.update_self]
    exact List.cons_ne_nil element []
  · exact absurd (List.mem_cons_of_mem _ (List.mem_of_mem_dropLast early))
      absent
  · rw [Function.update_self]
    exact (if_pos rfl).symm
  · refine Function.update_of_ne ?_ _ _
    rintro rfl
    exact absent List.mem_cons_self
  · exact stuffed.congr (by rw [Function.update_of_ne apart])
      (Function.update_of_ne apart _ _)
  · rw [Content.flatMap_update absent]
    exact sound.legal

theorem moveTail
    (sound : Sound capacity unit state rest ahead values sawEmpty sawFull)
    {element : α}
    {id : Nat}
    (phase : state.producer = .moveTail element id) :
    Arranged capacity unit
      ({ state with tailBlock := id, producer := .idle }.record
        (.push element)) := by
  obtain ⟨shape, content, spacious, producer, consumer, legal⟩ := sound
  rw [phase] at shape content producer
  obtain ⟨stuffed, head⟩ := producer
  obtain ⟨first, free, rfl⟩ :=
    List.exists_cons_of_ne_nil (List.ne_nil_of_mem (List.mem_of_head? head))
  obtain rfl : first = id := Option.some.inj head
  have only : values first = [element] :=
    (content.spare first List.mem_cons_self).trans (if_pos rfl)
  have length : (rest ++ [first] ++ free).length =
      (rest ++ first :: free).length := by simp
  refine ⟨rest ++ [first], free, values, sawEmpty, false, {
    shape := shape.moveTail
    content := content.moveTail shape stuffed
    spacious := length ▸ spacious
    producer := trivial
    consumer := consumer.mono (fun _ _ => ⟨rfl, rfl⟩)
      (List.prefix_append rest [first]) (fun _ => rfl)
    legal := ?_ }⟩
  show Fifo.Legal capacity (state.trace ++ [.push element])
    ⟨state.consumer.moved ++
      (state.frontBlock :: (rest ++ [first])).flatMap values, _, _⟩
  rw [← List.cons_append, List.flatMap_append, List.flatMap_singleton,
    only, ← List.append_assoc]
  exact legal.next (.push element)

/-! ## A new block -/

theorem newBlockSize_spacious
    (sound : Sound capacity unit state rest ahead values sawEmpty sawFull)
    (maxBlockSize : Nat) :
    unit < newBlockSize maxBlockSize state.largestBlockSize ∧
      ∃ exponent, 1 ≤ exponent ∧
        newBlockSize maxBlockSize state.largestBlockSize = 2 ^ exponent := by
  have largest := sound.spacious.largest
  obtain ⟨exponent, large, power⟩ := sound.spacious.power
  unfold newBlockSize
  split
  · exact ⟨largest, exponent, large, power⟩
  · refine ⟨by omega, exponent + 1, by omega, ?_⟩
    rw [power, Nat.pow_succ]

theorem allocate
    (sound : Sound capacity unit state rest ahead values sawEmpty sawFull)
    {element : α}
    {id : Nat}
    (phase : state.producer = .allocate element id)
    (maxBlockSize : Nat) :
    Arranged capacity unit
      ({ state.put state.allocated
          (.withElement (newBlockSize maxBlockSize state.largestBlockSize)
            element (state.heap id).next) with
        allocated := state.allocated + 1
        largestBlockSize := newBlockSize maxBlockSize state.largestBlockSize
        producer := .link element id state.allocated }.record .grow) := by
  obtain ⟨wide, exponent, large, power⟩ :=
    sound.newBlockSize_spacious maxBlockSize
  obtain ⟨shape, content, spacious, producer, consumer, legal⟩ := sound
  rw [phase] at shape content producer
  obtain ⟨rfl, stuffed, rfl⟩ := producer
  rw [power] at wide ⊢
  generalize made : Block.withElement (2 ^ exponent) element
    (state.heap state.tailBlock).next = block
  -- The number of the new block is the next one, so it is in use nowhere.
  have absent : state.allocated ∉ state.frontBlock :: rest ++ ahead :=
    fun member => Nat.lt_irrefl _ ((shape.counted _).mpr (.inl member))
  have kept : ∀ other ∈ state.frontBlock :: rest ++ ahead,
      Function.update state.heap state.allocated block other =
        state.heap other := by
    intro other member
    refine Function.update_of_ne ?_ _ _
    rintro rfl
    exact absent member
  have tail := kept state.tailBlock
    (List.mem_append_left ahead shape.tail_mem)
  have mask : block.sizeMask = 2 ^ exponent - 1 := by
    rw [← made]
    rfl
  refine ⟨rest, ahead, values, sawEmpty, false, {
    shape := ⟨shape.linked.congr fun other member => ?_, shape.last,
      fun other => ?_⟩
    content := content.change state.allocated
      (fun other apart => ⟨Function.update_of_ne apart _ _, rfl, rfl, rfl,
        rfl⟩) (fun member => absurd member absent)
      (fun member => absurd (List.mem_append_left ahead
        (List.mem_cons_of_mem _ member)) absent)
      (fun member => absurd (List.mem_append_left ahead
        (List.mem_cons_of_mem _ (List.mem_of_mem_dropLast member))) absent)
      (fun member => absurd (List.mem_append_right _ member) absent)
    spacious := ⟨fun other bound => ?_, wide, ⟨exponent, large, rfl⟩,
      spacious.enough⟩
    producer := ⟨rfl, stuffed.congr ?_ rfl, absent, ?_, ?_⟩
    consumer := consumer.mono (fun other member => ?_)
      (List.prefix_refl rest) (fun _ => rfl)
    legal := legal.next .grow }⟩
  · show (Function.update state.heap state.allocated block other).next = _
    rw [kept other member]
  · show other < state.allocated + 1 ↔
      other ∈ state.frontBlock :: rest ++ ahead ∨ other ∈ [state.allocated]
    have counted := shape.counted other
    simp only [Producer.owned, List.not_mem_nil, or_false] at counted
    rw [← counted, List.mem_singleton]
    omega
  · show unit ≤
      (Function.update state.heap state.allocated block other).sizeMask
    by_cases same : other = state.allocated
    · rw [same, Function.update_self, mask]
      omega
    · rw [Function.update_of_ne same]
      refine spacious.large other ?_
      have below : other < state.allocated + 1 := bound
      omega
  · show (Function.update state.heap state.allocated block _).sizeMask = _
    rw [tail]
  · show (Function.update state.heap state.allocated block _).Holds _ _
    rw [Function.update_self, ← made]
    exact Block.holds_withElement large element _
  · show (Function.update state.heap state.allocated block _).next =
      (Function.update state.heap state.allocated block _).next
    rw [Function.update_self, tail, ← made]
    rfl
  · show (Function.update state.heap state.allocated block other).front = _ ∧
      (Function.update state.heap state.allocated block other).localTail = _
    rw [kept other (List.mem_append_left ahead member)]
    exact ⟨rfl, rfl⟩

theorem link
    (sound : Sound capacity unit state rest ahead values sawEmpty sawFull)
    {element : α}
    {id fresh : Nat}
    (phase : state.producer = .link element id fresh) :
    Arranged capacity unit
      { state.put id { state.heap id with next := some fresh } with
        producer := .moveTail element fresh } := by
  obtain ⟨shape, content, spacious, producer, consumer, legal⟩ := sound
  rw [phase] at shape content producer
  obtain ⟨rfl, stuffed, absent, holds, points⟩ := producer
  have apart : fresh ≠ state.tailBlock := by
    rintro rfl
    exact absent (List.mem_append_left ahead shape.tail_mem)
  have notFront : fresh ≠ state.frontBlock := by
    rintro rfl
    exact absent (List.mem_append_left ahead List.mem_cons_self)
  have notLive : fresh ∉ state.frontBlock :: rest := fun member =>
    absent (List.mem_append_left ahead member)
  generalize other : Function.update state.heap state.tailBlock
    { state.heap state.tailBlock with next := some fresh } = heap
  have same : ∀ id, (heap id).front = (state.heap id).front ∧
      (heap id).localTail = (state.heap id).localTail ∧
      (heap id).sizeMask = (state.heap id).sizeMask := by
    intro id
    rw [← other]
    by_cases equal : id = state.tailBlock
    · rw [equal, Function.update_self]
      exact ⟨rfl, rfl, rfl⟩
    · rw [Function.update_of_ne equal]
      exact ⟨rfl, rfl, rfl⟩
  have relinked : Content heap state.frontBlock rest ahead values
      state.consumer.hole (fun _ => none) (fun _ => []) := by
    refine content.change state.tailBlock (fun id notTail => ?_)
      (fun member => ?_) (content.filled _) (fun member => ?_)
      (content.spare _)
    · rw [← other]
      exact ⟨Function.update_of_ne notTail _ _, rfl, rfl, rfl, rfl⟩
    · rw [← other, Function.update_self]
      exact (content.holds _ member).relink _
    · rw [(same state.tailBlock).2.2]
      exact content.packed _ member
  refine ⟨rest, fresh :: ahead, Function.update values fresh [element],
    sawEmpty, sawFull, {
    shape := ?_
    content := ?_
    spacious := ⟨?_, spacious.largest, spacious.power, ?_⟩
    producer := ⟨?_, rfl⟩
    consumer := consumer.mono (fun id _ => ?_) (List.prefix_refl rest)
      (fun _ => Function.update_of_ne notFront.symm _ _)
    legal := ?_ }⟩
  · exact shape.link absent points
  · show Content (Function.update state.heap state.tailBlock _) _ _ _ _ _ _ _
    rw [other]
    refine relinked.link absent ?_ (consumer.hole_eq_nil notFront)
    rw [← other, Function.update_of_ne apart]
    exact holds
  · intro id bound
    show unit ≤ (Function.update state.heap state.tailBlock _ id).sizeMask
    rw [other, (same id).2.2]
    exact spacious.large id bound
  · rw [List.length_append, List.length_cons, ← Nat.add_assoc, Nat.succ_mul,
      ← List.length_append]
    exact spacious.enough.imp_right fun fits => Nat.le_add_right_of_le fits
  · refine stuffed.congr ?_ (Function.update_of_ne apart.symm _ _)
    show (Function.update state.heap state.tailBlock _ _).sizeMask = _
    rw [other, (same state.tailBlock).2.2]
  · show (Function.update state.heap state.tailBlock _ id).front = _ ∧
      (Function.update state.heap state.tailBlock _ id).localTail = _
    rw [other]
    exact ⟨(same id).1, (same id).2.1⟩
  · show Fifo.Legal capacity state.trace
      ⟨state.consumer.moved ++ (state.frontBlock :: rest).flatMap _, _, _⟩
    rw [Content.flatMap_update notLive]
    exact legal

end Sound

/-- Every step of the producer keeps the invariant. -/
theorem produce_arranged
    (arranged : Arranged capacity unit state)
    {maxBlockSize : Nat}
    {memory : Bool}
    {after : State α}
    (taken : produce maxBlockSize memory state = some after) :
    Arranged capacity unit after := by
  obtain ⟨rest, ahead, values, sawEmpty, sawFull, sound⟩ := arranged
  unfold produce at taken
  split at taken <;> rename_i phase
  · cases taken
  · cases taken
    exact sound.reload phase
  · cases taken
    exact ⟨rest, ahead, values, sawEmpty, sawFull, sound.construct phase⟩
  · cases taken
    exact sound.publish phase
  · have full := sound.full phase
    split at taken <;> rename_i pointer
    · rw [if_pos pointer] at full
      cases taken
      exact full
    · rw [if_neg pointer] at full
      split at taken
      · cases taken
        exact full.1
      · cases taken
        exact full.2
  · obtain ⟨next, pointer, empty, arranged⟩ := sound.advance phase
    rw [pointer] at taken
    simp only [if_pos empty] at taken
    cases taken
    exact arranged
  · cases taken
    exact ⟨rest, ahead, values, sawEmpty, sawFull, sound.constructNext phase⟩
  · cases taken
    exact sound.publishNext phase
  · split at taken
    · cases taken
      exact sound.allocate phase maxBlockSize
    · have knows := sound.producer
      rw [phase] at knows
      obtain ⟨_, _, rfl⟩ := knows
      cases taken
      exact ⟨rest, ahead, values, sawEmpty, false,
        sound.think (phase ▸ quiet_allocate) quiet_idle trivial
          (sound.legal.next (.refuse _))⟩
  · cases taken
    exact sound.link phase
  · cases taken
    exact sound.moveTail phase
  · cases taken

end Queue
end Walkrie
