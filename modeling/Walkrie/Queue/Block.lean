import Walkrie.Library.Circular

/-!
# The blocks of the queue

A block is a circular buffer that one thread writes and another one reads.
The producer owns `tail`, the consumer `front`, and each keeps a copy of the
other's index that may be out of date.  One slot stays free, so that equal
indices mean an empty block.  A slot is raw memory until an element is
constructed in it, and again once the element was moved out and destroyed.
-/

namespace Walkrie
namespace Queue

/-- A block, with the number of another one for a pointer to it. -/
structure Block (α : Type) where
  front : Nat := 0
  /-- The consumer's copy of `tail`. -/
  localTail : Nat := 0
  tail : Nat := 0
  /-- The producer's copy of `front`. -/
  localFront : Nat := 0
  next : Option Nat := none
  data : Nat → Option α := fun _ => none
  sizeMask : Nat

variable {α : Type}

namespace Block

/-- `make_block`, when there is memory for it. -/
def make (capacity : Nat) : Block α where
  sizeMask := capacity - 1

def size (block : Block α) : Nat :=
  block.sizeMask + 1

/-- The index after another one. -/
def following (block : Block α) (index : Nat) : Nat :=
  (index + 1) &&& block.sizeMask

/-- The block has elements from `front` to `tail`, of which the listed image
is what their slots hold, and `pending` is in the slot at `tail`. -/
structure Holds
    (block : Block α)
    (image : List (Option α))
    (pending : Option α) : Prop where
  power : ∃ exponent, block.size = 2 ^ exponent
  /-- There is room for an element beside the slot that stays free. -/
  roomy : 1 < block.size
  front_lt : block.front < block.size
  tail_eq : block.tail = (block.front + image.length) % block.size
  /-- The consumer has seen some of the elements. -/
  seen : ∃ count ≤ image.length,
    block.localTail = (block.front + count) % block.size
  /-- The producer may have missed that elements were taken, but has kept a
  slot free. -/
  missed : ∃ count, count + image.length < block.size ∧
    block.front = (block.localFront + count) % block.size
  localFront_lt : block.localFront < block.size
  stores : Circular.Stores block.size block.data block.front
    (image ++ [pending])

variable {block : Block α}
variable {image : List (Option α)}
variable {pending : Option α}

theorem following_eq
    (power : ∃ exponent, block.size = 2 ^ exponent)
    (index : Nat) :
    block.following index = (index + 1) % block.size := by
  obtain ⟨exponent, size⟩ := power
  have mask : block.sizeMask = 2 ^ exponent - 1 := by
    rw [← size]
    rfl
  rw [following, mask, Nat.and_two_pow_sub_one_eq_mod, size]

namespace Holds

theorem short (holds : block.Holds image pending) :
    image.length < block.size := by
  obtain ⟨count, room, _⟩ := holds.missed
  omega

/-- Slots at the front and behind it, counted without going around. -/
theorem front_mod (holds : block.Holds image pending) :
    (block.front + 0) % block.size = block.front := by
  rw [Nat.add_zero, Nat.mod_eq_of_lt holds.front_lt]

/-- Equal indices mean an empty block. -/
theorem front_eq_tail_iff (holds : block.Holds image pending) :
    block.front = block.tail ↔ image = [] := by
  rw [holds.tail_eq, ← List.length_eq_zero_iff]
  constructor
  · intro same
    have zero := holds.front_mod.trans same
    exact (Circular.offset_inj (Nat.succ_pos _) holds.short zero).symm
  · intro empty
    rw [empty, holds.front_mod]

/-! ### The producer -/

theorem relink
    (holds : block.Holds image pending)
    (next : Option Nat) :
    { block with next }.Holds image pending :=
  ⟨holds.power, holds.roomy, holds.front_lt, holds.tail_eq, holds.seen,
    holds.missed, holds.localFront_lt, holds.stores⟩

theorem reloadFront (holds : block.Holds image pending) :
    { block with localFront := block.front }.Holds image pending where
  power := holds.power
  roomy := holds.roomy
  front_lt := holds.front_lt
  tail_eq := holds.tail_eq
  seen := holds.seen
  missed := ⟨0, by rw [Nat.zero_add]; exact holds.short, holds.front_mod.symm⟩
  localFront_lt := holds.front_lt
  stores := holds.stores

/-- There is room for an element as long as the index after `tail` is not the
one `front` was seen at. -/
theorem room
    (holds : block.Holds image pending)
    (differs : block.following block.tail ≠ block.localFront) :
    ∃ count, count + image.length + 1 < block.size ∧
      block.front = (block.localFront + count) % block.size := by
  obtain ⟨count, bound, front⟩ := holds.missed
  refine ⟨count, ?_, front⟩
  by_contra full
  refine differs ?_
  have size : block.size = count + image.length + 1 := by omega
  have around : block.localFront + count + image.length + 1 =
      block.localFront + block.size := by omega
  rw [following_eq holds.power, holds.tail_eq, Nat.mod_add_mod, front,
    Nat.add_assoc, Nat.mod_add_mod, ← Nat.add_assoc, around,
    Nat.add_mod_right, Nat.mod_eq_of_lt holds.localFront_lt]

/-- A block without room is full once its front has been read. -/
theorem full
    (holds : block.Holds image pending)
    (same : block.following block.tail = block.front) :
    image.length = block.sizeMask := by
  have short := holds.short
  by_contra less
  have below : image.length + 1 < block.size := by
    simp only [size] at short ⊢
    omega
  rw [following_eq holds.power, holds.tail_eq, Nat.mod_add_mod,
    Nat.add_assoc] at same
  have zero := same.trans holds.front_mod.symm
  have wrapped := Circular.offset_inj below (Nat.succ_pos _) zero
  omega

/-- The slot at `tail` is raw memory until the element is constructed. -/
theorem data_tail (holds : block.Holds image pending) :
    block.data block.tail = pending := by
  rw [holds.tail_eq, holds.stores _ holds.short]
  simp

theorem construct
    (holds : block.Holds image none)
    (element : α) :
    { block with
      data := Function.update block.data block.tail (some element) }.Holds
        image (some element) where
  power := holds.power
  roomy := holds.roomy
  front_lt := holds.front_lt
  tail_eq := holds.tail_eq
  seen := holds.seen
  missed := holds.missed
  localFront_lt := holds.localFront_lt
  stores := by
    show Circular.Stores block.size
      (Function.update block.data block.tail (some element)) block.front _
    rw [holds.tail_eq]
    refine holds.stores.set holds.short (by simp) fun other apart => ?_
    rcases Nat.lt_or_gt_of_ne apart with before | behind
    · rw [List.getElem?_append_left before, List.getElem?_append_left before]
    · rw [List.getElem?_eq_none (by simpa using behind),
        List.getElem?_eq_none (by simpa using behind)]

theorem publish
    {element : α}
    (holds : block.Holds image (some element))
    (differs : block.following block.tail ≠ block.localFront) :
    { block with tail := block.following block.tail }.Holds
      (image ++ [some element]) none := by
  obtain ⟨count, bound, front⟩ := holds.room differs
  exact {
    power := holds.power
    roomy := holds.roomy
    front_lt := holds.front_lt
    tail_eq := by
      show block.following block.tail = _
      rw [following_eq holds.power, holds.tail_eq, Nat.mod_add_mod,
        List.length_append]
      rfl
    seen := by
      obtain ⟨known, bound, tail⟩ := holds.seen
      refine ⟨known, ?_, tail⟩
      rw [List.length_append]
      omega
    missed := by
      refine ⟨count, ?_, front⟩
      show count + (image ++ [some element]).length < block.size
      rw [List.length_append, List.length_singleton]
      omega
    localFront_lt := holds.localFront_lt
    stores := Circular.stores_append_none.mpr holds.stores }

/-! ### The consumer -/

theorem reloadTail (holds : block.Holds image pending) :
    { block with localTail := block.tail }.Holds image pending where
  power := holds.power
  roomy := holds.roomy
  front_lt := holds.front_lt
  tail_eq := holds.tail_eq
  seen := ⟨image.length, le_rfl, holds.tail_eq⟩
  missed := holds.missed
  localFront_lt := holds.localFront_lt
  stores := holds.stores

/-- What the consumer has seen is there. -/
theorem seen_pos
    (holds : block.Holds image pending)
    (differs : block.front ≠ block.localTail) :
    ∃ count, 0 < count ∧ count ≤ image.length ∧
      block.localTail = (block.front + count) % block.size := by
  obtain ⟨count, bound, tail⟩ := holds.seen
  refine ⟨count, Nat.pos_of_ne_zero ?_, bound, tail⟩
  rintro rfl
  exact differs (tail.trans holds.front_mod).symm

theorem data_front
    {entry : Option α}
    (holds : block.Holds (entry :: image) pending) :
    block.data block.front = entry := by
  have first := holds.stores 0 (Nat.succ_pos _)
  rw [holds.front_mod] at first
  simpa using first

theorem take
    {entry : Option α}
    (holds : block.Holds (entry :: image) pending) :
    { block with data := Function.update block.data block.front none }.Holds
      (none :: image) pending where
  power := holds.power
  roomy := holds.roomy
  front_lt := holds.front_lt
  tail_eq := holds.tail_eq
  seen := holds.seen
  missed := holds.missed
  localFront_lt := holds.localFront_lt
  stores := by
    show Circular.Stores block.size
      (Function.update block.data block.front none) block.front _
    conv => arg 2; rw [← holds.front_mod]
    refine holds.stores.set (Nat.succ_pos _) rfl fun other apart => ?_
    cases other with
    | zero => exact absurd rfl apart
    | succ other => rfl

theorem release
    (holds : block.Holds (none :: image) pending)
    (differs : block.front ≠ block.localTail) :
    { block with front := block.following block.front }.Holds image
      pending := by
  have next : block.following block.front =
      (block.front + 1) % block.size := following_eq holds.power _
  have short := holds.short
  exact {
    power := holds.power
    roomy := holds.roomy
    front_lt := by
      show block.following block.front < block.size
      rw [next]
      exact Nat.mod_lt _ (Nat.succ_pos _)
    tail_eq := by
      show block.tail = (block.following block.front + image.length) %
        block.size
      rw [next, Nat.mod_add_mod, holds.tail_eq, List.length_cons,
        Nat.add_assoc, Nat.add_comm 1]
    seen := by
      obtain ⟨count, positive, bound, tail⟩ := holds.seen_pos differs
      rw [List.length_cons] at bound
      refine ⟨count - 1, by omega, ?_⟩
      show block.localTail = (block.following block.front + (count - 1)) %
        block.size
      rw [next, Nat.mod_add_mod, tail, Nat.add_assoc,
        Nat.add_sub_cancel' positive]
    missed := by
      obtain ⟨count, bound, front⟩ := holds.missed
      rw [List.length_cons] at bound
      refine ⟨count + 1, by
        show count + 1 + image.length < block.size
        omega, ?_⟩
      show block.following block.front =
        (block.localFront + (count + 1)) % block.size
      rw [next, front, Nat.mod_add_mod, Nat.add_assoc]
    localFront_lt := holds.localFront_lt
    stores := by
      show Circular.Stores block.size block.data
        (block.following block.front) _
      rw [next]
      refine Circular.Stores.tail holds.stores ?_
      rw [List.length_append, List.length_singleton]
      exact short }

end Holds

/-- A block that nothing was written to. -/
theorem holds_make
    {exponent : Nat}
    (large : 1 ≤ exponent)
    (next : Option Nat) :
    { (make (2 ^ exponent) : Block α) with next }.Holds [] none := by
  have two : 2 ^ 1 ≤ 2 ^ exponent :=
    Nat.pow_le_pow_right (show 0 < 2 by decide) large
  exact {
    power := ⟨exponent, Nat.sub_add_cancel (by omega)⟩
    roomy := by
      show 1 < 2 ^ exponent - 1 + 1
      omega
    front_lt := Nat.succ_pos _
    tail_eq := (Nat.zero_mod _).symm
    seen := ⟨0, le_rfl, (Nat.zero_mod _).symm⟩
    missed := ⟨0, Nat.succ_pos _, (Nat.zero_mod _).symm⟩
    localFront_lt := Nat.succ_pos _
    stores := by
      intro offset _
      cases offset <;> rfl }

/-- A block as it is linked into the queue: one element was constructed in it,
and both ends know of it. -/
def withElement (capacity : Nat) (element : α) (next : Option Nat) :
    Block α :=
  { (make capacity : Block α) with
    data := Function.update (fun _ => none) 0 (some element)
    tail := 1
    localTail := 1
    next }

/-- The index after `tail` of an empty block is not that of its front. -/
theorem Holds.following_ne
    (holds : block.Holds [] pending) :
    block.following block.tail ≠ block.front := by
  intro same
  have full := holds.full same
  have roomy := holds.roomy
  simp only [size, ← full, List.length_nil] at roomy
  omega

theorem holds_withElement
    {exponent : Nat}
    (large : 1 ≤ exponent)
    (element : α)
    (next : Option Nat) :
    (withElement (2 ^ exponent) element next).Holds [some element] none := by
  have empty : { (make (2 ^ exponent) : Block α) with next }.Holds [] none :=
    holds_make large next
  have two : 2 ^ 1 ≤ 2 ^ exponent :=
    Nat.pow_le_pow_right (show 0 < 2 by decide) large
  have one : (0 + 1) &&& (2 ^ exponent - 1) = 1 := by
    rw [Nat.and_two_pow_sub_one_eq_mod, Nat.zero_add]
    exact Nat.mod_eq_of_lt (by omega)
  have published :=
    ((empty.construct element).publish empty.following_ne).reloadTail
  simpa only [withElement, make, following, one, List.nil_append] using
    published

end Block

end Queue
end Walkrie
