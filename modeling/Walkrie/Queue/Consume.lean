import Walkrie.Queue.Invariant

/-!
# The steps of the consumer

Every step of `try_dequeue` keeps the invariant.  The element counts as taken
from the store to `front`, which gives its slot back.
-/

namespace Walkrie
namespace Queue

variable {α : Type}
variable {capacity unit : Nat}
variable {state : State α}
variable {rest ahead : List Nat}
variable {values : Nat → List α}
variable {sawEmpty sawFull : Bool}

namespace Sound

/-- The consumer writes to a block with elements, but not to what the
producer reads without looking at `front`. -/
theorem read
    (sound : Sound capacity unit state rest ahead values sawEmpty sawFull)
    {id : Nat}
    {block : Block α}
    {next : Consumer α}
    {trace : List (Fifo.Event α)}
    {changed : Nat → List α}
    {seesEmpty : Bool}
    (live : id ∈ state.frontBlock :: rest)
    (unread : block.tail = (state.heap id).tail ∧
      block.localFront = (state.heap id).localFront ∧
      block.next = (state.heap id).next ∧
      block.sizeMask = (state.heap id).sizeMask)
    (elsewhere : ∀ other, other ≠ id →
      changed other = values other ∧
        next.hole other = state.consumer.hole other)
    (here : block.Holds (next.hole id ++ (changed id).map some)
      (state.producer.pending id))
    (kept : id ∈ rest → changed id = values id)
    (knows : next.Sound (Function.update state.heap id block)
      state.frontBlock rest changed seesEmpty)
    (legal : Fifo.Legal capacity trace
      ⟨next.moved ++ (state.frontBlock :: rest).flatMap changed,
        seesEmpty, sawFull⟩) :
    Sound capacity unit { state.put id block with consumer := next, trace }
      rest ahead changed seesEmpty sawFull := by
  obtain ⟨tail, localFront, pointer, mask⟩ := unread
  have same : ∀ other,
      (Function.update state.heap id block other).tail =
          (state.heap other).tail ∧
        (Function.update state.heap id block other).localFront =
          (state.heap other).localFront ∧
        (Function.update state.heap id block other).next =
          (state.heap other).next ∧
        (Function.update state.heap id block other).sizeMask =
          (state.heap other).sizeMask := by
    intro other
    by_cases equal : other = id
    · subst equal
      rw [Function.update_self]
      exact ⟨tail, localFront, pointer, mask⟩
    · rw [Function.update_of_ne equal]
      exact ⟨rfl, rfl, rfl, rfl⟩
  have lists : ∀ other ∈ rest, changed other = values other := by
    intro other member
    by_cases equal : other = id
    · subst equal
      exact kept member
    · exact (elsewhere other equal).1
  exact {
    shape := sound.shape.congr (fun other => (same other).2.2.1) rfl
    content := by
      refine sound.content.change id (fun other apart => ?_) (fun _ => ?_)
        (fun member => ?_) (fun member => ?_) (fun free => ?_)
      · exact ⟨Function.update_of_ne apart _ _, (elsewhere other apart).1,
          (elsewhere other apart).2, rfl, rfl⟩
      · show (Function.update state.heap id block id).Holds _ _
        rw [Function.update_self]
        exact here
      · rw [lists id member]
        exact sound.content.filled id member
      · rw [lists id (List.mem_of_mem_dropLast member)]
        refine (sound.content.packed id member).trans ?_
        exact (same id).2.2.2.symm
      · exact absurd live (sound.shape.ahead_notMem free)
    spacious := {
      large := by
        intro other bound
        show unit ≤ (Function.update state.heap id block other).sizeMask
        rw [(same other).2.2.2]
        exact sound.spacious.large other bound
      largest := sound.spacious.largest
      power := sound.spacious.power
      enough := sound.spacious.enough }
    producer := by
      refine sound.producer.mono same (fun other outside => ⟨?_, outside⟩)
        (fun member => ⟨member, lists _ member⟩) (List.prefix_refl ahead)
      refine Function.update_of_ne ?_ _ _
      rintro rfl
      exact outside (List.mem_append_left ahead live)
    consumer := knows
    legal := legal }

/-- The consumer only thinks. -/
theorem consider
    (sound : Sound capacity unit state rest ahead values sawEmpty sawFull)
    {next : Consumer α}
    {trace : List (Fifo.Event α)}
    {seesEmpty : Bool}
    (before : ∀ id, state.consumer.hole id = [])
    (after : ∀ id, next.hole id = [])
    (knows : next.Sound state.heap state.frontBlock rest values seesEmpty)
    (legal : Fifo.Legal capacity trace
      ⟨next.moved ++ (state.frontBlock :: rest).flatMap values,
        seesEmpty, sawFull⟩) :
    Sound capacity unit { state with consumer := next, trace } rest ahead
      values seesEmpty sawFull where
  shape := sound.shape
  content := sound.content.congr
    (funext fun id => (after id).trans (before id).symm) rfl rfl
  spacious := sound.spacious
  producer := sound.producer
  consumer := knows
  legal := legal

/-- The consumer reads the tail of a block again. -/
theorem reloadTail
    (sound : Sound capacity unit state rest ahead values sawEmpty sawFull)
    {id : Nat}
    {next : Consumer α}
    {trace : List (Fifo.Event α)}
    {seesEmpty : Bool}
    (live : id ∈ state.frontBlock :: rest)
    (before : ∀ id, state.consumer.hole id = [])
    (after : ∀ id, next.hole id = [])
    (knows : next.Sound
      (Function.update state.heap id
        { state.heap id with localTail := (state.heap id).tail })
      state.frontBlock rest values seesEmpty)
    (legal : Fifo.Legal capacity trace
      ⟨next.moved ++ (state.frontBlock :: rest).flatMap values,
        seesEmpty, sawFull⟩) :
    Sound capacity unit
      { state.put id
          { state.heap id with localTail := (state.heap id).tail } with
        consumer := next
        trace }
      rest ahead values seesEmpty sawFull := by
  have holds := sound.content.holds id (List.mem_append_left ahead live)
  rw [before] at holds
  refine sound.read live ⟨rfl, rfl, rfl, rfl⟩
    (fun other _ => ⟨rfl, (after other).trans (before other).symm⟩) ?_
    (fun _ => rfl) knows legal
  rw [after]
  exact holds.reloadTail

/-- What the front block holds, as long as no element has been moved out. -/
theorem holds_front
    (sound : Sound capacity unit state rest ahead values sawEmpty sawFull)
    (whole : state.consumer.hole state.frontBlock = []) :
    (state.heap state.frontBlock).Holds
      ((values state.frontBlock).map some)
      (state.producer.pending state.frontBlock) := by
  have holds := sound.content.holds state.frontBlock
    (List.mem_append_left ahead List.mem_cons_self)
  rw [whole] at holds
  exact holds

theorem tryDequeue
    (sound : Sound capacity unit state rest ahead values sawEmpty sawFull)
    (phase : state.consumer = .idle) :
    Sound capacity unit (tryDequeue state) rest ahead values sawEmpty
      sawFull := by
  have whole : ∀ id, state.consumer.hole id = [] := by
    rw [phase]
    exact fun _ => rfl
  have legal := sound.legal
  rw [phase] at legal
  unfold Queue.tryDequeue
  dsimp only
  split <;> rename_i differs
  · exact sound.consider whole (fun _ => rfl) ⟨rfl, rfl, differs⟩ legal
  · exact sound.consider whole (fun _ => rfl) ⟨rfl, rfl⟩ legal

/-- A look at a front block without elements finds out whether the queue is
empty, as long as the tail block is another one. -/
theorem reloadFirst
    (sound : Sound capacity unit state rest ahead values sawEmpty sawFull)
    {id blockFront : Nat}
    (phase : state.consumer = .reload id blockFront) :
    Arranged capacity unit
      ({ state.put id
          { state.heap id with localTail := (state.heap id).tail } with
        consumer :=
          if blockFront ≠ (state.heap id).tail then .take id blockFront
          else .compare id }.record .look) := by
  have whole : ∀ id, state.consumer.hole id = [] := by
    rw [phase]
    exact fun _ => rfl
  have holds := sound.holds_front (whole _)
  have knows := sound.consumer
  have legal := sound.legal
  rw [phase] at knows legal
  obtain ⟨rfl, rfl⟩ := knows
  split <;> rename_i differs
  · refine ⟨rest, ahead, values, _, sawFull, sound.reloadTail
      List.mem_cons_self whole (fun _ => rfl) ⟨rfl, ?_, ?_⟩ (legal.next .look)⟩
    · rw [Function.update_self]
    · rw [Function.update_self]
      exact differs
  · have empty : values state.frontBlock = [] :=
      List.map_eq_nil_iff.mp
        (holds.front_eq_tail_iff.mp (not_not.mp differs))
    refine ⟨rest, ahead, values, _, sawFull, sound.reloadTail
      List.mem_cons_self whole (fun _ => rfl) ⟨rfl, ?_⟩ (legal.next .look)⟩
    by_cases alone : rest = []
    · exact .inl ((sound.content.isEmpty empty).mpr alone)
    · exact .inr alone

theorem compare
    (sound : Sound capacity unit state rest ahead values sawEmpty sawFull)
    {id : Nat}
    (phase : state.consumer = .compare id) :
    if id ≠ state.tailBlock then
      Arranged capacity unit { state with consumer := .reread }
    else
      Arranged capacity unit
        ({ state with consumer := .idle }.record .miss) := by
  have whole : ∀ id, state.consumer.hole id = [] := by
    rw [phase]
    exact fun _ => rfl
  have knows := sound.consumer
  have legal := sound.legal
  rw [phase] at knows legal
  obtain ⟨rfl, saw⟩ := knows
  split <;> rename_i differs
  · exact ⟨rest, ahead, values, sawEmpty, sawFull, sound.consider whole
      (fun _ => rfl) (fun alone => differs
        (sound.shape.front_eq_tail_iff.mpr alone)) legal⟩
  · have alone := sound.shape.front_eq_tail_iff.mp (not_not.mp differs)
    have saw : sawEmpty = true := saw.resolve_right (not_not.mpr alone)
    subst saw
    exact ⟨rest, ahead, values, false, sawFull, sound.consider whole
      (fun _ => rfl) trivial (legal.next .miss)⟩

theorem reread
    (sound : Sound capacity unit state rest ahead values sawEmpty sawFull)
    (phase : state.consumer = .reread) :
    Arranged capacity unit
      { state.put state.frontBlock
          { state.heap state.frontBlock with
            localTail := (state.heap state.frontBlock).tail } with
        consumer :=
          if (state.heap state.frontBlock).front ≠
              (state.heap state.frontBlock).tail then
            .take state.frontBlock (state.heap state.frontBlock).front
          else
            .follow state.frontBlock } := by
  have whole : ∀ id, state.consumer.hole id = [] := by
    rw [phase]
    exact fun _ => rfl
  have holds := sound.holds_front (whole _)
  have knows := sound.consumer
  have legal := sound.legal
  rw [phase] at knows legal
  split <;> rename_i differs
  · refine ⟨rest, ahead, values, sawEmpty, sawFull, sound.reloadTail
      List.mem_cons_self whole (fun _ => rfl) ⟨rfl, ?_, ?_⟩ legal⟩
    · rw [Function.update_self]
    · rw [Function.update_self]
      exact differs
  · have empty : values state.frontBlock = [] :=
      List.map_eq_nil_iff.mp
        (holds.front_eq_tail_iff.mp (not_not.mp differs))
    exact ⟨rest, ahead, values, sawEmpty, sawFull, sound.reloadTail
      List.mem_cons_self whole (fun _ => rfl) ⟨rfl, knows, empty⟩ legal⟩

theorem follow
    (sound : Sound capacity unit state rest ahead values sawEmpty sawFull)
    {id : Nat}
    (phase : state.consumer = .follow id) :
    ∃ next, (state.heap id).next = some next ∧
      Arranged capacity unit { state with consumer := .inspect next } := by
  have knows := sound.consumer
  have legal := sound.legal
  rw [phase] at knows legal
  obtain ⟨rfl, several, empty⟩ := knows
  obtain ⟨second, others, rfl⟩ := List.exists_cons_of_ne_nil several
  refine ⟨second, sound.shape.next_front, second :: others, ahead, values,
    sawEmpty, sawFull, sound.consider ?_ (fun _ => rfl) ⟨rfl, empty⟩ legal⟩
  rw [phase]
  exact fun _ => rfl

/-- The block the consumer goes on to has an element. -/
theorem inspect
    (sound : Sound capacity unit state rest ahead values sawEmpty sawFull)
    {id : Nat}
    (phase : state.consumer = .inspect id) :
    (state.heap id).front ≠ (state.heap id).tail ∧
      Arranged capacity unit
        { state.put id
            { state.heap id with localTail := (state.heap id).tail } with
          consumer := .moveFront id (state.heap id).front } := by
  have whole : ∀ id, state.consumer.hole id = [] := by
    rw [phase]
    exact fun _ => rfl
  have knows := sound.consumer
  have legal := sound.legal
  rw [phase] at knows legal
  obtain ⟨head, empty⟩ := knows
  have member := List.mem_of_head? head
  have live := List.mem_cons_of_mem state.frontBlock member
  have holds := sound.content.holds id (List.mem_append_left ahead live)
  rw [whole] at holds
  have differs : (state.heap id).front ≠ (state.heap id).tail := fun same =>
    sound.content.filled id member
      (List.map_eq_nil_iff.mp (holds.front_eq_tail_iff.mp same))
  refine ⟨differs, rest, ahead, values, sawEmpty, sawFull,
    sound.reloadTail live whole (fun _ => rfl) ⟨head, empty, ?_, ?_⟩ legal⟩
  · rw [Function.update_self]
  · rw [Function.update_self]
    exact differs

theorem moveFront
    (sound : Sound capacity unit state rest ahead values sawEmpty sawFull)
    {id blockFront : Nat}
    (phase : state.consumer = .moveFront id blockFront) :
    Arranged capacity unit
      { state with frontBlock := id, consumer := .take id blockFront } := by
  obtain ⟨shape, content, spacious, producer, consumer, legal⟩ := sound
  rw [phase] at content consumer legal
  obtain ⟨head, empty, front, differs⟩ := consumer
  obtain ⟨second, others, rfl⟩ :=
    List.exists_cons_of_ne_nil (List.ne_nil_of_mem (List.mem_of_head? head))
  obtain rfl : second = id := Option.some.inj head
  have length : (others ++ (ahead ++ [state.frontBlock])).length =
      (second :: others ++ ahead).length := by simp [Nat.add_assoc]
  have spare : values state.frontBlock =
      state.producer.reserved state.frontBlock := by
    rw [empty]
    exact (producer.reserved_eq_nil shape List.mem_cons_self).symm
  refine ⟨others, ahead ++ [state.frontBlock], values, sawEmpty, sawFull, {
    shape := shape.moveFront
    content := content.moveFront spare
    spacious := length ▸ spacious
    producer := producer.mono (fun _ => ⟨rfl, rfl, rfl, rfl⟩)
      (fun other outside => ⟨rfl, ?_⟩)
      (fun member => ⟨List.mem_cons_of_mem second member, rfl⟩)
      (List.prefix_append ahead _)
    consumer := ⟨rfl, front, differs⟩
    legal := ?_ }⟩
  · simp only [List.cons_append, List.mem_cons, List.mem_append,
      List.not_mem_nil, or_false] at outside ⊢
    tauto
  · rw [List.flatMap_cons, empty] at legal
    exact legal

theorem take
    (sound : Sound capacity unit state rest ahead values sawEmpty sawFull)
    {id blockFront : Nat}
    (phase : state.consumer = .take id blockFront) :
    ∃ element, (state.heap id).data blockFront = some element ∧
      Arranged capacity unit
        { state.put id { state.heap id with
            data := Function.update (state.heap id).data blockFront
              none } with
          consumer := .release id blockFront element } := by
  have whole : ∀ id, state.consumer.hole id = [] := by
    rw [phase]
    exact fun _ => rfl
  have holds := sound.holds_front (whole _)
  have knows := sound.consumer
  have legal := sound.legal
  rw [phase] at knows legal
  obtain ⟨rfl, rfl, differs⟩ := knows
  obtain ⟨count, positive, bound, _⟩ := holds.seen_pos differs
  obtain ⟨element, others, split⟩ : ∃ element others,
      values state.frontBlock = element :: others := by
    refine List.exists_cons_of_ne_nil fun empty => ?_
    rw [empty, List.map_nil, List.length_nil] at bound
    omega
  rw [split, List.map_cons] at holds
  refine ⟨element, holds.data_front, rest, ahead,
    Function.update values state.frontBlock others, sawEmpty, sawFull,
    sound.read List.mem_cons_self ⟨rfl, rfl, rfl, rfl⟩
      (fun other apart => ⟨Function.update_of_ne apart _ _, ?_⟩) ?_
      (fun member => absurd member sound.shape.front_notMem)
      ⟨rfl, ?_, ?_⟩ ?_⟩
  · rw [whole]
    exact if_neg apart
  · rw [Function.update_self]
    have hole : (Consumer.release state.frontBlock
        (state.heap state.frontBlock).front element).hole state.frontBlock =
        [none] := if_pos rfl
    rw [hole]
    exact holds.take
  · rw [Function.update_self]
  · rw [Function.update_self]
    exact differs
  · rw [List.flatMap_cons, Function.update_self,
      Content.flatMap_update sound.shape.front_notMem]
    rw [List.flatMap_cons, split] at legal
    exact legal

theorem release
    (sound : Sound capacity unit state rest ahead values sawEmpty sawFull)
    {id blockFront : Nat}
    {element : α}
    (phase : state.consumer = .release id blockFront element) :
    Arranged capacity unit
      ({ state.put id { state.heap id with
          front := (state.heap id).following blockFront } with
        consumer := .idle }.record (.pop element)) := by
  have holds := sound.content.holds state.frontBlock
    (List.mem_append_left ahead List.mem_cons_self)
  have knows := sound.consumer
  have legal := sound.legal
  rw [phase] at knows legal holds
  obtain ⟨rfl, rfl, differs⟩ := knows
  have hole : (Consumer.release state.frontBlock
      (state.heap state.frontBlock).front element).hole state.frontBlock =
      [none] := if_pos rfl
  rw [hole] at holds
  refine ⟨rest, ahead, values, false, sawFull,
    sound.read List.mem_cons_self ⟨rfl, rfl, rfl, rfl⟩
      (fun other apart => ⟨rfl, ?_⟩) (holds.release differs) (fun _ => rfl)
      trivial (legal.next .pop)⟩
  rw [phase]
  exact (if_neg apart).symm

end Sound

/-- Every step of the consumer keeps the invariant. -/
theorem consume_arranged
    (arranged : Arranged capacity unit state)
    {after : State α}
    (taken : consume state = some after) :
    Arranged capacity unit after := by
  obtain ⟨rest, ahead, values, sawEmpty, sawFull, sound⟩ := arranged
  unfold consume at taken
  split at taken <;> rename_i phase
  · cases taken
  · cases taken
    exact sound.reloadFirst phase
  · have compared := sound.compare phase
    split at taken <;> rename_i differs
    · rw [if_pos differs] at compared
      cases taken
      exact compared
    · rw [if_neg differs] at compared
      cases taken
      exact compared
  · cases taken
    exact sound.reread phase
  · obtain ⟨next, pointer, arranged⟩ := sound.follow phase
    rw [pointer] at taken
    cases taken
    exact arranged
  · obtain ⟨differs, arranged⟩ := sound.inspect phase
    simp only [if_pos differs] at taken
    cases taken
    exact arranged
  · cases taken
    exact sound.moveFront phase
  · obtain ⟨element, found, arranged⟩ := sound.take phase
    simp only [found] at taken
    cases taken
    exact arranged
  · cases taken
    exact sound.release phase
  · cases taken

end Queue
end Walkrie
