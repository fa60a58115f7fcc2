import Mathlib

/-!
# Circular storage

The first part is about slots that are used in a circle: a number of slots,
and what they hold read from one of them onwards.  A slot that holds nothing
is `none`, and so is every slot behind the end of what is listed.

The second part is about nodes that are linked in a circle, by a pointer from
each node to the next one.
-/

namespace Circular

/-! ## Slots -/

section Slots

variable {α : Type*} {size start : Nat}

/-- Different distances below the size lead to different slots. -/
theorem offset_inj
    {first second : Nat}
    (firstBound : first < size)
    (secondBound : second < size)
    (same : (start + first) % size = (start + second) % size) :
    first = second :=
  (Nat.ModEq.add_left_cancel' start same).eq_of_lt_of_lt firstBound
    secondBound

/-- Read from `start` onwards, the slots hold what is listed, and nothing
behind it. -/
def Stores
    (size : Nat)
    (slots : Nat → Option α)
    (start : Nat)
    (image : List (Option α)) : Prop :=
  ∀ offset < size, slots ((start + offset) % size) = image[offset]?.join

variable {slots : Nat → Option α} {image : List (Option α)}

/-- A slot that holds nothing need not be listed at the end. -/
theorem stores_append_none :
    Stores size slots start (image ++ [none]) ↔
      Stores size slots start image := by
  have same : ∀ offset : Nat,
      (image ++ [none])[offset]?.join = image[offset]?.join := by
    intro offset
    rcases Nat.lt_or_ge offset image.length with before | behind
    · rw [List.getElem?_append_left before]
    · rw [List.getElem?_append_right behind, List.getElem?_eq_none behind]
      cases offset - image.length <;> rfl
  simp only [Stores, same]

/-- Writing to one slot changes what is listed for it and nothing else. -/
theorem Stores.set
    (stores : Stores size slots start image)
    {offset : Nat}
    (inside : offset < size)
    {value : Option α}
    {changed : List (Option α)}
    (here : changed[offset]?.join = value)
    (elsewhere : ∀ other, other ≠ offset →
      changed[other]?.join = image[other]?.join) :
    Stores size (Function.update slots ((start + offset) % size) value)
      start changed := by
  intro other bound
  by_cases same : other = offset
  · rw [same, Function.update_self, here]
  · rw [Function.update_of_ne, stores other bound, elsewhere other same]
    exact fun equal => same (offset_inj bound inside equal)

/-- A first slot that holds nothing can be left behind. -/
theorem Stores.tail
    (stores : Stores size slots start (none :: image))
    (short : image.length < size) :
    Stores size slots ((start + 1) % size) image := by
  intro offset bound
  rw [Nat.mod_add_mod]
  by_cases last : offset + 1 < size
  · have next := stores (offset + 1) last
    rw [show start + 1 + offset = start + (offset + 1) by omega, next]
    simp
  · -- Once around, the slot that was left behind is the last one.
    have around : start + 1 + offset = start + size := by omega
    have first := stores 0 (by omega)
    rw [around, Nat.add_mod_right]
    rw [Nat.add_zero] at first
    rw [first, List.getElem?_eq_none (by omega : image.length ≤ offset)]
    rfl

end Slots

/-! ## Nodes -/

section Nodes

variable {ι : Type*} {next : ι → Option ι}

/-- Every node points to the one listed after it, and the last one to the
first. -/
def Linked (next : ι → Option ι) (ring : List ι) : Prop :=
  ring.Nodup ∧
    (ring ++ ring.head?.toList).IsChain fun node following =>
      next node = some following

theorem Linked.next_of_append
    {before after : List ι}
    {node following : ι}
    (linked : Linked next (before ++ node :: following :: after)) :
    next node = some following := by
  have chain := linked.2
  rw [List.append_assoc, List.cons_append, List.cons_append,
    List.isChain_append_cons_cons] at chain
  exact chain.2.1

theorem Linked.next_last
    {first : ι}
    {before : List ι}
    {node : ι}
    (linked : Linked next (before ++ [node]))
    (head : (before ++ [node]).head? = some first) :
    next node = some first := by
  have chain := linked.2
  rw [head, Option.toList_some, List.append_assoc, List.singleton_append,
    List.isChain_append_cons_cons] at chain
  exact chain.2.1

/-- A chain depends on the pointers of all nodes but the last. -/
theorem isChain_congr
    {other : ι → Option ι}
    {nodes : List ι}
    {last : ι}
    (same : ∀ node ∈ nodes, other node = next node)
    (chain : (nodes ++ [last]).IsChain fun node following =>
      next node = some following) :
    (nodes ++ [last]).IsChain fun node following =>
      other node = some following := by
  induction nodes with
  | nil => exact .singleton last
  | cons node nodes inductionHypothesis =>
      obtain ⟨here, later⟩ := List.forall_mem_cons.mp same
      rw [List.cons_append, List.isChain_cons] at chain ⊢
      refine ⟨fun following member => ?_, inductionHypothesis later chain.2⟩
      rw [here]
      exact chain.1 following member

theorem Linked.congr
    {other : ι → Option ι}
    {ring : List ι}
    (linked : Linked next ring)
    (same : ∀ node ∈ ring, other node = next node) :
    Linked other ring := by
  refine ⟨linked.1, ?_⟩
  cases ring with
  | nil => exact .nil
  | cons first ring => exact isChain_congr same linked.2

/-- The first node may as well be listed last. -/
theorem Linked.rotate
    {node following : ι}
    {ring : List ι}
    (linked : Linked next (node :: following :: ring)) :
    Linked next (following :: ring ++ [node]) := by
  refine ⟨?_, ?_⟩
  · have distinct := linked.1
    rw [← List.singleton_append, List.nodup_append_comm] at distinct
    exact distinct
  · obtain ⟨points, chain⟩ := List.isChain_cons_cons.mp linked.2
    simp only [List.cons_append, List.head?_cons, Option.toList_some]
    rw [List.append_assoc, ← List.cons_append, List.singleton_append,
      List.isChain_split]
    exact ⟨by simpa using chain, List.isChain_pair.mpr points⟩

/-- A new node is put between a node and the one it pointed to. -/
theorem Linked.insert
    {before after : List ι}
    {node fresh : ι}
    (linked : Linked next (before ++ node :: after))
    (absent : fresh ∉ before ++ node :: after)
    {other : ι → Option ι}
    (points : other node = some fresh)
    (takes : other fresh = next node)
    (same : ∀ rest, rest ≠ node → rest ≠ fresh → other rest = next rest) :
    Linked other (before ++ node :: fresh :: after) := by
  obtain ⟨distinct, chain⟩ := linked
  have apart := List.nodup_append.mp distinct
  have kept : ∀ rest ∈ before ++ after, other rest = next rest := by
    intro rest member
    refine same rest ?_ ?_
    · rintro rfl
      rcases List.mem_append.mp member with early | late
      · exact apart.2.2 rest early rest List.mem_cons_self rfl
      · exact (List.nodup_cons.mp apart.2.1).1 late
    · rintro rfl
      refine absent (List.mem_append.mpr ?_)
      exact (List.mem_append.mp member).imp_right (List.mem_cons_of_mem node)
  refine ⟨?_, ?_⟩
  · have inserted : (fresh :: (before ++ node :: after)).Nodup :=
      List.nodup_cons.mpr ⟨absent, distinct⟩
    have moved : (before ++ [node] ++ fresh :: after).Perm
        (fresh :: (before ++ [node] ++ after)) := List.perm_middle
    simp only [List.append_assoc, List.singleton_append] at moved
    exact moved.symm.nodup inserted
  · obtain ⟨first, head⟩ : ∃ first,
        (before ++ [node]).head? = some first := by
      cases before <;> exact ⟨_, rfl⟩
    have heads : ∀ rest, (before ++ node :: rest).head? = some first := by
      intro rest
      cases before <;> exact head
    rw [heads, Option.toList_some, List.append_assoc, List.cons_append]
      at chain ⊢
    rw [List.isChain_split] at chain ⊢
    refine ⟨isChain_congr (fun rest member =>
      kept rest (List.mem_append_left after member)) chain.1, ?_⟩
    rw [List.cons_append, List.isChain_cons_cons]
    refine ⟨points, ?_⟩
    rw [List.isChain_cons] at chain ⊢
    refine ⟨fun following member => ?_, isChain_congr (fun rest member =>
      kept rest (List.mem_append_right before member)) chain.2.2⟩
    rw [takes]
    exact chain.2.1 following member

end Nodes

end Circular
