import Walkrie.Queue.ReaderWriter

/-!
# What holds between any two steps of the queue

The blocks from the front block to the tail block hold the elements, in that
order, and the blocks behind the tail block are empty.  Only the front block
can be empty among the former, and only the front block and the tail block
can have room.  What a thread has read stays true while the other one works,
because each moves its end forward only.
-/

namespace Walkrie
namespace Queue

variable {α : Type}

namespace Producer

/-- The element that is in a block, behind its last one. -/
def pending : Producer α → Nat → Option α
  | .publish element block _, id => if id = block then some element else none
  | .publishNext element block _, id =>
      if id = block then some element else none
  | _, _ => none

/-- The elements in blocks that are not yet the tail block. -/
def reserved : Producer α → Nat → List α
  | .moveTail element block, id => if id = block then [element] else []
  | _, _ => []

/-- The blocks that are not yet linked. -/
def owned : Producer α → List Nat
  | .link _ _ fresh => [fresh]
  | _ => []

/-- The producer has written nothing that the consumer does not see. -/
structure Quiet (producer : Producer α) : Prop where
  owned : producer.owned = []
  pending : ∀ id, producer.pending id = none
  reserved : ∀ id, producer.reserved id = []

end Producer

namespace Consumer

/-- The slot whose element has been moved out. -/
def hole : Consumer α → Nat → List (Option α)
  | .release block _ _, id => if id = block then [none] else []
  | _, _ => []

/-- The element that has been moved out. -/
def moved : Consumer α → List α
  | .release _ _ element => [element]
  | _ => []

end Consumer

/-- The blocks are linked in a circle: the front block, the rest of those
with elements, which end with the tail block, and those ahead of it. -/
structure Shape
    (heap : Nat → Block α)
    (frontBlock tailBlock allocated : Nat)
    (rest ahead owned : List Nat) : Prop where
  linked : Circular.Linked (fun id => (heap id).next)
    (frontBlock :: rest ++ ahead)
  last : (frontBlock :: rest).getLast? = some tailBlock
  counted : ∀ id, id < allocated ↔
    id ∈ frontBlock :: rest ++ ahead ∨ id ∈ owned

/-- What the blocks hold. -/
structure Content
    (heap : Nat → Block α)
    (frontBlock : Nat)
    (rest ahead : List Nat)
    (values : Nat → List α)
    (hole : Nat → List (Option α))
    (pending : Nat → Option α)
    (reserved : Nat → List α) : Prop where
  holds : ∀ id ∈ frontBlock :: rest ++ ahead,
    (heap id).Holds (hole id ++ (values id).map some) (pending id)
  filled : ∀ id ∈ rest, values id ≠ []
  packed : ∀ id ∈ rest.dropLast, (values id).length = (heap id).sizeMask
  spare : ∀ id ∈ ahead, values id = reserved id

/-- The blocks are large enough: each one has room for `unit` elements, and
`capacity` of them fit where the consumer is not. -/
structure Spacious
    (capacity unit : Nat)
    (heap : Nat → Block α)
    (allocated largestBlockSize others : Nat) : Prop where
  large : ∀ id < allocated, unit ≤ (heap id).sizeMask
  largest : unit < largestBlockSize
  power : ∃ exponent, 1 ≤ exponent ∧ largestBlockSize = 2 ^ exponent
  enough : capacity ≤ unit ∨ capacity ≤ others * unit

/-- The tail block is full, unless the consumer works on it as well. -/
def Stuffed
    (heap : Nat → Block α)
    (tailBlock : Nat)
    (rest : List Nat)
    (values : Nat → List α) : Prop :=
  tailBlock ∈ rest → (values tailBlock).length = (heap tailBlock).sizeMask

/-- What the producer knows. -/
def Producer.Sound
    (heap : Nat → Block α)
    (frontBlock tailBlock : Nat)
    (rest ahead : List Nat)
    (values : Nat → List α)
    (sawFull : Bool) : Producer α → Prop
  | .idle => True
  | .reload _ _ id blockTail =>
      id = tailBlock ∧ blockTail = (heap id).tail
  | .construct _ id blockTail | .publish _ id blockTail =>
      id = tailBlock ∧ blockTail = (heap id).tail ∧
        (heap id).following blockTail ≠ (heap id).localFront
  | .full _ _ id =>
      id = tailBlock ∧ Stuffed heap tailBlock rest values ∧
        (sawFull = true ∨ ahead ≠ [])
  | .advance _ id =>
      id = tailBlock ∧ Stuffed heap tailBlock rest values ∧ ahead ≠ []
  | .constructNext _ id blockTail | .publishNext _ id blockTail =>
      Stuffed heap tailBlock rest values ∧ ahead.head? = some id ∧
        blockTail = (heap id).tail ∧
        (heap id).following blockTail ≠ (heap id).localFront
  | .allocate _ id =>
      id = tailBlock ∧ Stuffed heap tailBlock rest values ∧ sawFull = true
  | .link element id fresh =>
      id = tailBlock ∧ Stuffed heap tailBlock rest values ∧
        fresh ∉ frontBlock :: rest ++ ahead ∧
        (heap fresh).Holds [some element] none ∧
        (heap fresh).next = (heap id).next
  | .moveTail _ id =>
      Stuffed heap tailBlock rest values ∧ ahead.head? = some id
  | .failed => False

/-- What the consumer knows. -/
def Consumer.Sound
    (heap : Nat → Block α)
    (frontBlock : Nat)
    (rest : List Nat)
    (values : Nat → List α)
    (sawEmpty : Bool) : Consumer α → Prop
  | .idle => True
  | .reload id blockFront => id = frontBlock ∧ blockFront = (heap id).front
  | .compare id => id = frontBlock ∧ (sawEmpty = true ∨ rest ≠ [])
  | .reread => rest ≠ []
  | .follow id => id = frontBlock ∧ rest ≠ [] ∧ values frontBlock = []
  | .inspect id => rest.head? = some id ∧ values frontBlock = []
  | .moveFront id blockFront =>
      rest.head? = some id ∧ values frontBlock = [] ∧
        blockFront = (heap id).front ∧ blockFront ≠ (heap id).localTail
  | .take id blockFront | .release id blockFront _ =>
      id = frontBlock ∧ blockFront = (heap id).front ∧
        blockFront ≠ (heap id).localTail
  | .failed => False

/-- The invariant. -/
structure Sound
    (capacity unit : Nat)
    (state : State α)
    (rest ahead : List Nat)
    (values : Nat → List α)
    (sawEmpty sawFull : Bool) : Prop where
  shape : Shape state.heap state.frontBlock state.tailBlock state.allocated
    rest ahead state.producer.owned
  content : Content state.heap state.frontBlock rest ahead values
    state.consumer.hole state.producer.pending state.producer.reserved
  spacious : Spacious capacity unit state.heap state.allocated
    state.largestBlockSize (rest ++ ahead).length
  producer : state.producer.Sound state.heap state.frontBlock
    state.tailBlock rest ahead values sawFull
  consumer : state.consumer.Sound state.heap state.frontBlock rest values
    sawEmpty
  legal : Fifo.Legal capacity state.trace
    ⟨state.consumer.moved ++ (state.frontBlock :: rest).flatMap values,
      sawEmpty, sawFull⟩

/-- A state that the invariant holds in, for some arrangement of the blocks. -/
def Arranged (capacity unit : Nat) (state : State α) : Prop :=
  ∃ rest ahead values sawEmpty sawFull,
    Sound capacity unit state rest ahead values sawEmpty sawFull

section Frame

variable {heap other : Nat → Block α}
variable {frontBlock tailBlock allocated : Nat}
variable {rest ahead owned : List Nat}
variable {values changed : Nat → List α}
variable {hole hole' : Nat → List (Option α)}
variable {pending pending' : Nat → Option α}
variable {reserved reserved' : Nat → List α}

/-! ## What the arrangement of the blocks says -/

namespace Shape

theorem nodup
    (shape : Shape heap frontBlock tailBlock allocated rest ahead owned) :
    (frontBlock :: rest ++ ahead).Nodup :=
  shape.linked.1

theorem front_notMem
    (shape : Shape heap frontBlock tailBlock allocated rest ahead owned) :
    frontBlock ∉ rest :=
  fun member => (List.nodup_cons.mp shape.nodup).1
    (List.mem_append_left ahead member)

theorem tail_mem
    (shape : Shape heap frontBlock tailBlock allocated rest ahead owned) :
    tailBlock ∈ frontBlock :: rest :=
  List.mem_of_getLast? shape.last

theorem split
    (shape : Shape heap frontBlock tailBlock allocated rest ahead owned) :
    ∃ before, frontBlock :: rest = before ++ [tailBlock] :=
  List.getLast?_eq_some_iff.mp shape.last

/-- The front block is the tail block when there is no other one. -/
theorem front_eq_tail_iff
    (shape : Shape heap frontBlock tailBlock allocated rest ahead owned) :
    frontBlock = tailBlock ↔ rest = [] := by
  constructor
  · intro same
    cases rest with
    | nil => rfl
    | cons first rest =>
        have last := shape.last
        rw [List.getLast?_cons_cons] at last
        rw [← same] at last
        exact absurd (List.mem_of_getLast? last) shape.front_notMem
  · rintro rfl
    exact Option.some.inj shape.last

/-- The blocks before the tail block. -/
theorem mem_dropLast
    (shape : Shape heap frontBlock tailBlock allocated rest ahead owned)
    {id : Nat}
    (member : id ∈ rest) :
    id ∈ rest.dropLast ∨ id = tailBlock := by
  cases rest with
  | nil => cases member
  | cons first rest =>
      have last := shape.last
      rw [List.getLast?_cons_cons] at last
      obtain ⟨before, split⟩ := List.getLast?_eq_some_iff.mp last
      rw [split] at member ⊢
      rw [List.dropLast_concat]
      simpa using member

theorem tail_notMem_dropLast
    (shape : Shape heap frontBlock tailBlock allocated rest ahead owned) :
    tailBlock ∉ rest.dropLast := by
  cases rest with
  | nil => simp
  | cons first rest =>
      have last := shape.last
      rw [List.getLast?_cons_cons] at last
      obtain ⟨before, split⟩ := List.getLast?_eq_some_iff.mp last
      have distinct := shape.nodup
      rw [split, List.cons_append] at distinct
      have inner := (List.nodup_append.mp (List.nodup_cons.mp distinct).2).1
      rw [split, List.dropLast_concat]
      exact fun member => (List.nodup_append.mp inner).2.2 tailBlock member
        tailBlock (List.mem_singleton_self tailBlock) rfl

/-- The tail block points to the first free block. -/
theorem next_tail
    {first : Nat}
    {free : List Nat}
    (shape : Shape heap frontBlock tailBlock allocated rest (first :: free)
      owned) :
    (heap tailBlock).next = some first := by
  obtain ⟨before, split⟩ := shape.split
  have linked := shape.linked
  rw [split, List.append_assoc, List.singleton_append] at linked
  exact linked.next_of_append

/-- If there is none, then it points to the front block. -/
theorem next_tail_nil
    (shape : Shape heap frontBlock tailBlock allocated rest [] owned) :
    (heap tailBlock).next = some frontBlock := by
  obtain ⟨before, split⟩ := shape.split
  have linked := shape.linked
  rw [List.append_nil, split] at linked
  exact linked.next_last (by rw [← split]; rfl)

/-- The front block points to the second one. -/
theorem next_front
    {second : Nat}
    {others : List Nat}
    (shape : Shape heap frontBlock tailBlock allocated (second :: others)
      ahead owned) :
    (heap frontBlock).next = some second := by
  have linked : Circular.Linked (fun id => (heap id).next)
      ([] ++ frontBlock :: second :: (others ++ ahead)) := shape.linked
  exact linked.next_of_append

theorem ahead_notMem
    (shape : Shape heap frontBlock tailBlock allocated rest ahead owned)
    {id : Nat}
    (member : id ∈ ahead) :
    id ∉ frontBlock :: rest :=
  fun live => (List.nodup_append.mp shape.nodup).2.2 id live id member rfl

/-- Blocks that keep their pointers stay as they are arranged. -/
theorem congr
    {owned' : List Nat}
    (shape : Shape heap frontBlock tailBlock allocated rest ahead owned)
    (same : ∀ id, (other id).next = (heap id).next)
    (owns : owned' = owned) :
    Shape other frontBlock tailBlock allocated rest ahead owned' := by
  have pointers : (fun id => (other id).next) = fun id => (heap id).next :=
    funext same
  subst owns
  exact ⟨pointers ▸ shape.linked, shape.last, shape.counted⟩

/-- The first free block becomes the tail block. -/
theorem moveTail
    {first : Nat}
    {free : List Nat}
    (shape : Shape heap frontBlock tailBlock allocated rest (first :: free)
      owned) :
    Shape heap frontBlock first allocated (rest ++ [first]) free owned := by
  have ring : frontBlock :: (rest ++ [first]) ++ free =
      frontBlock :: rest ++ first :: free := by simp
  refine ⟨ring ▸ shape.linked, ?_, ring ▸ shape.counted⟩
  rw [← List.cons_append, List.getLast?_concat]

/-- The second block becomes the front block, and the first one is free. -/
theorem moveFront
    {second : Nat}
    {others : List Nat}
    (shape : Shape heap frontBlock tailBlock allocated (second :: others)
      ahead owned) :
    Shape heap second tailBlock allocated others (ahead ++ [frontBlock])
      owned := by
  have ring : second :: others ++ (ahead ++ [frontBlock]) =
      second :: (others ++ ahead) ++ [frontBlock] := by simp
  have linked : Circular.Linked (fun id => (heap id).next)
      (frontBlock :: second :: (others ++ ahead)) := shape.linked
  refine ⟨ring ▸ linked.rotate, ?_, fun id => ?_⟩
  · rw [← shape.last, List.getLast?_cons_cons]
  · rw [shape.counted id, ring]
    refine or_congr ?_ Iff.rfl
    simp only [List.cons_append, List.mem_cons, List.mem_append,
      List.not_mem_nil, or_false]
    tauto

/-- A new block is put behind the tail block. -/
theorem link
    {fresh : Nat}
    (shape : Shape heap frontBlock tailBlock allocated rest ahead [fresh])
    (absent : fresh ∉ frontBlock :: rest ++ ahead)
    (points : (heap fresh).next = (heap tailBlock).next) :
    Shape
      (Function.update heap tailBlock
        { heap tailBlock with next := some fresh })
      frontBlock tailBlock allocated rest (fresh :: ahead) [] := by
  obtain ⟨before, split⟩ := shape.split
  have linked := shape.linked
  have other := absent
  rw [split, List.append_assoc, List.singleton_append] at linked other
  have apart : fresh ≠ tailBlock := by
    rintro rfl
    simp at other
  refine ⟨?_, shape.last, fun id => ?_⟩
  · rw [split, List.append_assoc, List.singleton_append]
    refine linked.insert other (by rw [Function.update_self]) ?_
      fun rest notTail _ => by rw [Function.update_of_ne notTail]
    rw [Function.update_of_ne apart, points]
  · rw [shape.counted id]
    simp only [List.mem_append, List.mem_cons, List.not_mem_nil, or_false]
    tauto

end Shape

/-! ## What the contents say -/

namespace Content

/-- One block is written to. -/
theorem change
    (content : Content heap frontBlock rest ahead values hole pending
      reserved)
    (block : Nat)
    (elsewhere : ∀ id, id ≠ block →
      other id = heap id ∧ changed id = values id ∧ hole' id = hole id ∧
        pending' id = pending id ∧ reserved' id = reserved id)
    (here : block ∈ frontBlock :: rest ++ ahead →
      (other block).Holds (hole' block ++ (changed block).map some)
        (pending' block))
    (filled : block ∈ rest → changed block ≠ [])
    (packed : block ∈ rest.dropLast →
      (changed block).length = (other block).sizeMask)
    (spare : block ∈ ahead → changed block = reserved' block) :
    Content other frontBlock rest ahead changed hole' pending' reserved' := by
  refine ⟨?_, ?_, ?_, ?_⟩
  all_goals
    intro id member
    by_cases same : id = block
  · subst same
    exact here member
  · obtain ⟨heaps, lists, holes, pendings, _⟩ := elsewhere id same
    rw [heaps, lists, holes, pendings]
    exact content.holds id member
  · subst same
    exact filled member
  · rw [(elsewhere id same).2.1]
    exact content.filled id member
  · subst same
    exact packed member
  · rw [(elsewhere id same).1, (elsewhere id same).2.1]
    exact content.packed id member
  · subst same
    exact spare member
  · obtain ⟨_, lists, _, _, reserves⟩ := elsewhere id same
    rw [lists, reserves]
    exact content.spare id member

/-- The elements do not depend on blocks that have none. -/
theorem flatMap_update
    {blocks : List Nat}
    {id : Nat}
    (absent : id ∉ blocks)
    (elements : List α) :
    blocks.flatMap (Function.update values id elements) =
      blocks.flatMap values := by
  refine List.flatMap_congr fun other member => Function.update_of_ne ?_ _ _
  rintro rfl
  exact absent member

/-- The first free block becomes the tail block. -/
theorem moveTail
    {first : Nat}
    {free : List Nat}
    {element : α}
    (content : Content heap frontBlock rest (first :: free) values hole
      pending (fun id => if id = first then [element] else []))
    (shape : Shape heap frontBlock tailBlock allocated rest (first :: free)
      owned)
    (stuffed : Stuffed heap tailBlock rest values) :
    Content heap frontBlock (rest ++ [first]) free values hole pending
      fun _ => [] := by
  have ring : frontBlock :: (rest ++ [first]) ++ free =
      frontBlock :: rest ++ first :: free := by simp
  refine ⟨ring ▸ content.holds, fun id member => ?_, fun id member => ?_,
    fun id member => ?_⟩
  · rcases List.mem_append.mp member with early | late
    · exact content.filled id early
    · rw [List.mem_singleton.mp late,
        content.spare first List.mem_cons_self, if_pos rfl]
      exact List.cons_ne_nil element []
  · rw [List.dropLast_concat] at member
    rcases shape.mem_dropLast member with early | rfl
    · exact content.packed id early
    · exact stuffed member
  · have apart : id ≠ first := by
      rintro rfl
      have distinct := (List.nodup_append.mp shape.nodup).2.1
      exact (List.nodup_cons.mp distinct).1 member
    rw [content.spare id (List.mem_cons_of_mem first member), if_neg apart]

/-- The second block becomes the front block, and the first one is free. -/
theorem moveFront
    {second : Nat}
    {others : List Nat}
    (content : Content heap frontBlock (second :: others) ahead values hole
      pending reserved)
    (spare : values frontBlock = reserved frontBlock) :
    Content heap second others (ahead ++ [frontBlock]) values hole pending
      reserved := by
  refine ⟨fun id member => content.holds id ?_, fun id member => ?_,
    fun id member => ?_, fun id member => ?_⟩
  · simp only [List.cons_append, List.mem_cons, List.mem_append,
      List.not_mem_nil, or_false] at member ⊢
    tauto
  · exact content.filled id (List.mem_cons_of_mem second member)
  · refine content.packed id ?_
    rw [List.dropLast_cons_of_ne_nil (List.ne_nil_of_mem
      (List.mem_of_mem_dropLast member))]
    exact List.mem_cons_of_mem second member
  · rcases List.mem_append.mp member with early | late
    · exact content.spare id early
    · rw [List.mem_singleton.mp late]
      exact spare

/-- A new block with an element is put behind the tail block. -/
theorem link
    {fresh : Nat}
    {element : α}
    (content : Content heap frontBlock rest ahead values hole
      (fun _ => none) (fun _ => []))
    (absent : fresh ∉ frontBlock :: rest ++ ahead)
    (holds : (heap fresh).Holds [some element] none)
    (hole_eq : hole fresh = []) :
    Content heap frontBlock rest (fresh :: ahead)
      (Function.update values fresh [element]) hole (fun _ => none)
      fun id => if id = fresh then [element] else [] := by
  have apart : ∀ id ∈ frontBlock :: rest ++ ahead, id ≠ fresh := by
    rintro id member rfl
    exact absent member
  refine ⟨fun id member => ?_, fun id member => ?_, fun id member => ?_,
    fun id member => ?_⟩
  · by_cases same : id = fresh
    · rw [same, Function.update_self, hole_eq]
      exact holds
    · rw [Function.update_of_ne same]
      refine content.holds id ?_
      simpa [same] using member
  · rw [Function.update_of_ne (apart id (by simp [member]))]
    exact content.filled id member
  · have inside := List.mem_of_mem_dropLast member
    rw [Function.update_of_ne (apart id (by simp [inside]))]
    exact content.packed id member
  · rcases List.mem_cons.mp member with rfl | late
    · rw [Function.update_self, if_pos rfl]
    · have other := apart id (List.mem_append_right _ late)
      rw [Function.update_of_ne other, if_neg other]
      exact content.spare id late

/-- No block is written to. -/
theorem congr
    (content : Content heap frontBlock rest ahead values hole pending
      reserved)
    (holes : hole' = hole)
    (pendings : pending' = pending)
    (reserves : reserved' = reserved) :
    Content heap frontBlock rest ahead values hole' pending' reserved' := by
  subst holes pendings reserves
  exact content

/-- There are no elements when the front block is empty and is the only one. -/
theorem isEmpty
    (content : Content heap frontBlock rest ahead values hole pending
      reserved)
    (empty : values frontBlock = []) :
    ((frontBlock :: rest).flatMap values).isEmpty = true ↔ rest = [] := by
  rw [List.flatMap_cons, empty, List.nil_append, List.isEmpty_iff,
    List.flatMap_eq_nil_iff]
  constructor
  · intro free
    refine List.eq_nil_iff_forall_not_mem.mpr fun id member => ?_
    exact content.filled id member (free id member)
  · rintro rfl id member
    cases member

end Content

/-- The slot that was moved from is in the front block. -/
theorem Consumer.Sound.hole_eq_nil
    {consumer : Consumer α}
    {sawEmpty : Bool}
    (sound : consumer.Sound heap frontBlock rest values sawEmpty)
    {id : Nat}
    (apart : id ≠ frontBlock) :
    consumer.hole id = [] := by
  cases consumer with
  | release block blockFront element => exact if_neg (sound.1 ▸ apart)
  | _ => rfl

theorem Consumer.length_hole_le (consumer : Consumer α) (id : Nat) :
    (consumer.hole id).length ≤ consumer.moved.length := by
  cases consumer with
  | release block blockFront element =>
      show (if id = block then [none] else []).length ≤ 1
      split <;> simp
  | _ => exact le_rfl

/-- What the producer has put into another block is behind the tail block. -/
theorem Producer.Sound.reserved_eq_nil
    {producer : Producer α}
    {sawFull : Bool}
    (sound : producer.Sound heap frontBlock tailBlock rest ahead values
      sawFull)
    (shape : Shape heap frontBlock tailBlock allocated rest ahead owned)
    {id : Nat}
    (live : id ∈ frontBlock :: rest) :
    producer.reserved id = [] := by
  cases producer with
  | moveTail element block =>
      refine if_neg ?_
      rintro rfl
      exact shape.ahead_notMem (List.mem_of_head? sound.2) live
  | _ => rfl

/-! ## What a thread knows stays true -/

theorem Stuffed.congr
    (stuffed : Stuffed heap tailBlock rest values)
    (mask : (other tailBlock).sizeMask = (heap tailBlock).sizeMask)
    (lists : changed tailBlock = values tailBlock) :
    Stuffed other tailBlock rest changed := by
  intro member
  rw [mask, lists]
  exact stuffed member

/-- The consumer's knowledge, while the producer works. -/
theorem Consumer.Sound.mono
    {consumer : Consumer α}
    {sawEmpty : Bool}
    {longer : List Nat}
    (sound : consumer.Sound heap frontBlock rest values sawEmpty)
    (same : ∀ id ∈ frontBlock :: rest,
      (other id).front = (heap id).front ∧
        (other id).localTail = (heap id).localTail)
    (grows : rest <+: longer)
    (kept : rest ≠ [] → changed frontBlock = values frontBlock) :
    consumer.Sound other frontBlock longer changed sawEmpty := by
  have first := same frontBlock List.mem_cons_self
  have nonempty : rest ≠ [] → longer ≠ [] := fun filled empty =>
    filled (List.prefix_nil.mp (empty ▸ grows))
  have head : ∀ {id}, rest.head? = some id → longer.head? = some id ∧
      rest ≠ [] ∧ id ∈ frontBlock :: rest := by
    intro id head
    obtain ⟨more, rfl⟩ := grows
    cases rest with
    | nil => cases head
    | cons second others =>
        cases head
        exact ⟨rfl, List.cons_ne_nil _ _, by simp⟩
  cases consumer with
  | idle => trivial
  | reload id blockFront =>
      obtain ⟨rfl, read⟩ := sound
      exact ⟨rfl, first.1 ▸ read⟩
  | compare id => exact ⟨sound.1, sound.2.imp_right nonempty⟩
  | reread => exact nonempty sound
  | follow id =>
      obtain ⟨front, follows, empty⟩ := sound
      exact ⟨front, nonempty follows, (kept follows).trans empty⟩
  | inspect id =>
      obtain ⟨next, follows, _⟩ := head sound.1
      exact ⟨next, (kept follows).trans sound.2⟩
  | moveFront id blockFront =>
      obtain ⟨next, follows, member⟩ := head sound.1
      obtain ⟨_, empty, read, differs⟩ := sound
      rw [← (same id member).1] at read
      rw [← (same id member).2] at differs
      exact ⟨next, (kept follows).trans empty, read, differs⟩
  | take id blockFront =>
      obtain ⟨rfl, read, differs⟩ := sound
      exact ⟨rfl, first.1 ▸ read, first.2 ▸ differs⟩
  | release id blockFront element =>
      obtain ⟨rfl, read, differs⟩ := sound
      exact ⟨rfl, first.1 ▸ read, first.2 ▸ differs⟩
  | failed => exact sound

/-- The producer's knowledge, while the consumer works. -/
theorem Producer.Sound.mono
    {producer : Producer α}
    {sawFull : Bool}
    {frontBlock' : Nat}
    {rest' ahead' : List Nat}
    (sound : producer.Sound heap frontBlock tailBlock rest ahead values
      sawFull)
    (same : ∀ id, (other id).tail = (heap id).tail ∧
      (other id).localFront = (heap id).localFront ∧
      (other id).next = (heap id).next ∧
      (other id).sizeMask = (heap id).sizeMask)
    (outside : ∀ id, id ∉ frontBlock :: rest ++ ahead →
      other id = heap id ∧ id ∉ frontBlock' :: rest' ++ ahead')
    (kept : tailBlock ∈ rest' →
      tailBlock ∈ rest ∧ changed tailBlock = values tailBlock)
    (grows : ahead <+: ahead') :
    producer.Sound other frontBlock' tailBlock rest' ahead' changed
      sawFull := by
  have stuffed : Stuffed heap tailBlock rest values →
      Stuffed other tailBlock rest' changed := by
    intro stuffed member
    obtain ⟨earlier, lists⟩ := kept member
    exact stuffed.congr (same tailBlock).2.2.2 lists earlier
  have nonempty : ahead ≠ [] → ahead' ≠ [] := fun filled empty =>
    filled (List.prefix_nil.mp (empty ▸ grows))
  have head : ∀ {id}, ahead.head? = some id → ahead'.head? = some id := by
    intro id head
    obtain ⟨more, rfl⟩ := grows
    cases ahead with
    | nil => cases head
    | cons second others => exact head
  have following : ∀ id index,
      (other id).following index = (heap id).following index := by
    intro id index
    simp only [Block.following, (same id).2.2.2]
  cases producer with
  | idle => trivial
  | reload mode element id blockTail =>
      exact ⟨sound.1, sound.2.trans (same id).1.symm⟩
  | construct element id blockTail =>
      refine ⟨sound.1, sound.2.1.trans (same id).1.symm, ?_⟩
      rw [following, (same id).2.1]
      exact sound.2.2
  | publish element id blockTail =>
      refine ⟨sound.1, sound.2.1.trans (same id).1.symm, ?_⟩
      rw [following, (same id).2.1]
      exact sound.2.2
  | full mode element id =>
      exact ⟨sound.1, stuffed sound.2.1, sound.2.2.imp_right nonempty⟩
  | advance element id =>
      exact ⟨sound.1, stuffed sound.2.1, nonempty sound.2.2⟩
  | constructNext element id blockTail =>
      refine ⟨stuffed sound.1, head sound.2.1,
        sound.2.2.1.trans (same id).1.symm, ?_⟩
      rw [following, (same id).2.1]
      exact sound.2.2.2
  | publishNext element id blockTail =>
      refine ⟨stuffed sound.1, head sound.2.1,
        sound.2.2.1.trans (same id).1.symm, ?_⟩
      rw [following, (same id).2.1]
      exact sound.2.2.2
  | allocate element id => exact ⟨sound.1, stuffed sound.2.1, sound.2.2⟩
  | link element id fresh =>
      obtain ⟨tail, full, absent, holds, points⟩ := sound
      obtain ⟨untouched, absent⟩ := outside fresh absent
      refine ⟨tail, stuffed full, absent, untouched ▸ holds, ?_⟩
      rw [(same fresh).2.2.1, (same id).2.2.1, points]
  | moveTail element id => exact ⟨stuffed sound.1, head sound.2⟩
  | failed => exact sound

end Frame

end Queue
end Walkrie
