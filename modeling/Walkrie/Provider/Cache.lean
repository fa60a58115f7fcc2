import Walkrie.Library.Table
import Walkrie.Library.Lru

/-!
# The embedding cache

`CachingEmbeddingProvider` keeps the vectors of the texts used last, in a list
with the last one used in front and an index into it.  An entry of the index is
an iterator: it names a node of the list, and following one whose node is gone,
like asking an empty list for its last node, has no defined result.  The list
and the index together are a cache of the least recently used kind.
-/

namespace Walkrie
namespace Provider

variable {φ : Type}

/-- The loop of `cache_size_for_batch`: the size is doubled until it reaches
the bound.  A loop that has not ended after so many turns is `none`. -/
def doubleUntil (bound : UInt64) : Nat → UInt64 → Option UInt64
  | 0, _ => none
  | turns + 1, size =>
      if size < bound then doubleUntil bound turns (size <<< 1) else some size

/-- `cache_size_for_batch`. -/
def cacheSizeForBatch (turns : Nat) (batchSize : UInt64) : Option UInt64 :=
  doubleUntil (if batchSize < 16 then 16 else batchSize) turns 1

/-- A node of `lru_`, with the identity iterators know it by. -/
structure Node (φ : Type) where
  identity : Nat
  text : String
  vec : List φ
  deriving DecidableEq

/-- The state of the cache, and the identity the next node gets. -/
structure Cache (φ : Type) where
  maxEntries : Nat
  lru : List (Node φ) := []
  index : Table String Nat := ∅
  allocated : Nat := 0

namespace Cache

/-- `splice`: the node an iterator names, moved to the front. -/
def splice (cache : Cache φ) (identity : Nat) :
    Option (Node φ × Cache φ) :=
  (cache.lru.find? fun node => node.identity = identity).map fun node =>
    (node,
      { cache with
        lru := node :: cache.lru.eraseP fun node => node.identity = identity })

/-- `try_get`: the vector of a text, if there is one.  A result that is not
defined is `none`. -/
def tryGet (cache : Cache φ) (text : String) :
    Option (Option (List φ) × Cache φ) :=
  match cache.index.lookup text with
  | none => some (none, cache)
  | some identity =>
      (cache.splice identity).map fun (node, cache) => (some node.vec, cache)

/-- The node at the back is dropped when the cache is full. -/
def evict (cache : Cache φ) : Option (Cache φ) :=
  if cache.maxEntries ≤ cache.index.keys.length then
    cache.lru.getLast?.map fun last =>
      { cache with
        lru := cache.lru.dropLast
        index := cache.index.erase last.text }
  else some cache

/-- `emplace_front`, and the entry of the index for the new node. -/
def emplaceFront (cache : Cache φ) (text : String) (vec : List φ) :
    Cache φ :=
  { cache with
    lru := { identity := cache.allocated, text, vec } :: cache.lru
    index := Table.upsert cache.index text cache.allocated
    allocated := cache.allocated + 1 }

/-- `put`. -/
def put (cache : Cache φ) (text : String) (vec : List φ) :
    Option (Cache φ) :=
  match cache.index.lookup text with
  | some identity =>
      (cache.splice identity).map fun (node, cache) =>
        { cache with lru := { node with vec } :: cache.lru.tail }
  | none => cache.evict.map fun cache => cache.emplaceFront text vec

end Cache

/-- The provider behind the cache during one call; `none` is an exception. -/
structure Inner (φ : Type) where
  embed : String → Option (List φ)
  embedBatch : List String → Option (List (List φ))

/-- What a call does: the value it returns unless the provider behind throws,
the texts it asks that provider for, and the vectors it gets for them. -/
structure Served (φ α : Type) where
  value : Option α
  asked : List String := []
  answered : List (String × List φ) := []
  cache : Cache φ

/-- `embed`. -/
def Cache.embed (cache : Cache φ) (inner : Inner φ) (text : String) :
    Option (Served φ (List φ)) :=
  match cache.tryGet text with
  | none => none
  | some (some cached, cache) => some { value := some cached, cache }
  | some (none, cache) =>
      match inner.embed text with
      | none => some { value := none, asked := [text], cache }
      | some vec =>
          (cache.put text vec).map fun cache =>
            { value := some vec
              asked := [text]
              answered := [(text, vec)]
              cache }

/-- The variables of `embed_batch`. -/
structure Batch (φ : Type) where
  cache : Cache φ
  results : List (List φ)
  uncachedTexts : List String := []
  uncachedIdx : List Nat := []

/-- One turn of the first loop. -/
def Batch.look (batch : Batch φ) (entry : String × Nat) :
    Option (Batch φ) :=
  match batch.cache.tryGet entry.1 with
  | none => none
  | some (some cached, cache) =>
      some { batch with cache, results := batch.results.set entry.2 cached }
  | some (none, cache) =>
      some
        { batch with
          cache
          uncachedTexts := batch.uncachedTexts ++ [entry.1]
          uncachedIdx := batch.uncachedIdx ++ [entry.2] }

/-- One turn of the second loop. -/
def Batch.store (batch : Batch φ) (computed : String × Nat × List φ) :
    Option (Batch φ) :=
  (batch.cache.put computed.1 computed.2.2).map fun cache =>
    { batch with
      cache
      results := batch.results.set computed.2.1 computed.2.2 }

/-- `embed_batch`.  It returns no vector at all if the provider behind returns
another number of them than it was asked for. -/
def Cache.embedBatch (cache : Cache φ) (inner : Inner φ)
    (texts : List String) : Option (Served φ (List (List φ))) :=
  let start : Batch φ := { cache, results := List.replicate texts.length [] }
  (texts.zipIdx.foldlM Batch.look start).bind fun batch =>
    let asked := batch.uncachedTexts
    if asked.isEmpty then
      some { value := some batch.results, cache := batch.cache }
    else
      match inner.embedBatch asked with
      | none => some { value := none, asked, cache := batch.cache }
      | some computed =>
          if computed.length ≠ asked.length then
            some { value := some [], asked, cache := batch.cache }
          else
            ((asked.zip (batch.uncachedIdx.zip computed)).foldlM Batch.store
                batch).map fun batch =>
              { value := some batch.results
                asked
                answered := asked.zip computed
                cache := batch.cache }

/-! ## The list and the index -/

namespace Cache

/-- The entries of the cache, the last one used first. -/
def entries (cache : Cache φ) : List (String × List φ) :=
  cache.lru.map fun node => (node.text, node.vec)

/-- The index and the list hold the same texts, each once and each entry of
the index naming its own node, and there are no more than allowed. -/
structure WellFormed (cache : Cache φ) : Prop where
  index : ∀ text identity, cache.index.lookup text = some identity ↔
    ∃ node ∈ cache.lru, node.text = text ∧ node.identity = identity
  texts : (cache.lru.map Node.text).Nodup
  identities : (cache.lru.map Node.identity).Nodup
  allocated : ∀ node ∈ cache.lru, node.identity < cache.allocated
  bounded : cache.lru.length ≤ cache.maxEntries

section Refinement

variable {cache : Cache φ}
variable {text : String}

theorem keys_entries : Lru.keys cache.entries = cache.lru.map Node.text := by
  simp [Lru.keys, entries]

theorem mem_lru_of_mem_keys
    (member : text ∈ Lru.keys cache.entries) :
    ∃ node ∈ cache.lru, node.text = text := by
  rw [keys_entries] at member
  exact List.mem_map.mp member

/-- The text and the identity of each node. -/
def names (lru : List (Node φ)) : List (String × Nat) :=
  lru.map fun node => (node.text, node.identity)

/-- The order and the vectors of the nodes do not matter. -/
theorem WellFormed.of_perm
    {next : Cache φ}
    (wellFormed : cache.WellFormed)
    (nodes : (names next.lru).Perm (names cache.lru))
    (index : next.index = cache.index)
    (allocated : next.allocated = cache.allocated)
    (maxEntries : next.maxEntries = cache.maxEntries) :
    next.WellFormed := by
  have member : ∀ text identity,
      (∃ node ∈ next.lru, node.text = text ∧ node.identity = identity) ↔
        ∃ node ∈ cache.lru, node.text = text ∧ node.identity = identity := by
    intro text identity
    have same := nodes.mem_iff (a := (text, identity))
    simpa [names] using same
  refine ⟨?_, ?_, ?_, ?_, ?_⟩
  · intro text identity
    rw [index, wellFormed.index, member]
  · have texts := nodes.map Prod.fst
    simp only [names, List.map_map] at texts
    exact texts.nodup_iff.mpr wellFormed.texts
  · have identities := nodes.map Prod.snd
    simp only [names, List.map_map] at identities
    exact identities.nodup_iff.mpr wellFormed.identities
  · intro node present
    obtain ⟨other, among, _, same⟩ :=
      (member node.text node.identity).mp ⟨node, present, rfl, rfl⟩
    rw [allocated, ← same]
    exact wellFormed.allocated other among
  · have length := nodes.length_eq
    simp only [names, List.length_map] at length
    rw [maxEntries, length]
    exact wellFormed.bounded

/-- Following an iterator finds the node, and taking the node out leaves the
nodes of other texts. -/
theorem find_eraseP
    {lru : List (Node φ)}
    (texts : (lru.map Node.text).Nodup)
    (identities : (lru.map Node.identity).Nodup)
    {node : Node φ}
    (member : node ∈ lru) :
    lru.find? (fun other => other.identity = node.identity) = some node ∧
      lru.eraseP (fun other => other.identity = node.identity) =
        lru.filter (fun other => other.text ≠ node.text) ∧
      (node :: lru.filter fun other => other.text ≠ node.text).Perm lru := by
  induction lru with
  | nil => cases member
  | cons first lru inductionHypothesis =>
      rw [List.map_cons, List.nodup_cons] at texts identities
      by_cases same : first = node
      · subst same
        have kept : lru.filter (fun other => other.text ≠ first.text) = lru :=
          List.filter_eq_self.mpr fun other among => by
            simpa using fun equal : other.text = first.text =>
              texts.1 (equal ▸ List.mem_map_of_mem among)
        refine ⟨by simp, ?_, ?_⟩
        · rw [List.eraseP_cons_of_pos (by simp),
            List.filter_cons_of_neg (by simp), kept]
        · rw [List.filter_cons_of_neg (by simp), kept]
      · have among : node ∈ lru :=
          (List.mem_cons.mp member).resolve_left (Ne.symm same)
        have text : first.text ≠ node.text := fun equal =>
          texts.1 (equal ▸ List.mem_map_of_mem among)
        have identity : first.identity ≠ node.identity := fun equal =>
          identities.1 (equal ▸ List.mem_map_of_mem among)
        obtain ⟨found, erased, moved⟩ :=
          inductionHypothesis texts.2 identities.2 among
        refine ⟨?_, ?_, ?_⟩
        · rw [List.find?_cons_of_neg (by simpa using identity)]
          exact found
        · rw [List.eraseP_cons_of_neg (by simpa using identity), erased,
            List.filter_cons_of_pos (by simpa using text)]
        · rw [List.filter_cons_of_pos (by simpa using text)]
          exact (List.Perm.swap first node _).trans (moved.cons first)

theorem splice_eq
    (wellFormed : cache.WellFormed)
    {node : Node φ}
    (member : node ∈ cache.lru) :
    cache.splice node.identity =
      some (node,
        { cache with
          lru := node :: cache.lru.filter fun other =>
            other.text ≠ node.text }) := by
  obtain ⟨found, erased, _⟩ :=
    find_eraseP wellFormed.texts wellFormed.identities member
  rw [splice, found, erased]
  rfl

/-- Moving a node to the front, whatever its vector becomes. -/
theorem wellFormed_moved
    (wellFormed : cache.WellFormed)
    {node : Node φ}
    (member : node ∈ cache.lru)
    (vec : List φ) :
    WellFormed
      { cache with
        lru := { node with vec } :: cache.lru.filter fun other =>
          other.text ≠ node.text } := by
  refine wellFormed.of_perm ?_ rfl rfl rfl
  have moved :=
    (find_eraseP wellFormed.texts wellFormed.identities member).2.2
  exact moved.map fun node => (node.text, node.identity)

theorem entries_moved
    (node : Node φ)
    (vec : List φ) :
    entries
        { cache with
          lru := { node with vec } :: cache.lru.filter fun other =>
            other.text ≠ node.text } =
      Lru.front node.text vec cache.entries := by
  simp [entries, Lru.front, List.filter_map, Function.comp_def]

theorem mem_entries
    {node : Node φ}
    (member : node ∈ cache.lru) :
    (node.text, node.vec) ∈ cache.entries :=
  List.mem_map.mpr ⟨node, member, rfl⟩

theorem index_eq_none_iff
    (wellFormed : cache.WellFormed) :
    cache.index.lookup text = none ↔ text ∉ Lru.keys cache.entries := by
  constructor
  · intro absent member
    obtain ⟨node, among, named⟩ := mem_lru_of_mem_keys member
    have found := (wellFormed.index text node.identity).mpr
      ⟨node, among, named, rfl⟩
    rw [absent] at found
    cases found
  · intro absent
    cases found : cache.index.lookup text with
    | none => rfl
    | some identity =>
        obtain ⟨node, among, named, _⟩ :=
          (wellFormed.index text identity).mp found
        rw [keys_entries] at absent
        exact absurd (named ▸ List.mem_map_of_mem among) absent

/-- What an operation leaves behind: the entries, in a proper cache. -/
structure Holds (cache : Cache φ) (maxEntries : Nat)
    (entries : List (String × List φ)) : Prop where
  wellFormed : cache.WellFormed
  maxEntries : cache.maxEntries = maxEntries
  entries : cache.entries = entries

/-- `try_get` looks an entry up and uses it. -/
theorem tryGet_spec
    (wellFormed : cache.WellFormed)
    (text : String) :
    ∃ next, cache.tryGet text = some (cache.entries.lookup text, next) ∧
      next.Holds cache.maxEntries (Lru.touch text cache.entries) := by
  unfold tryGet
  cases found : cache.index.lookup text with
  | none =>
      have absent := (index_eq_none_iff wellFormed).mp found
      refine ⟨cache, ?_, wellFormed, rfl, (Lru.touch_of_not_mem absent).symm⟩
      simp [Assoc.lookup_eq_none_iff.mpr absent]
  | some identity =>
      obtain ⟨node, among, rfl, rfl⟩ :=
        (wellFormed.index text identity).mp found
      have nodup : (Lru.keys cache.entries).Nodup := by
        rw [keys_entries]
        exact wellFormed.texts
      have present := (Assoc.lookup_eq_some_iff nodup).mpr (mem_entries among)
      simp only [splice_eq wellFormed among, Option.map_some, present]
      refine ⟨_, rfl, wellFormed_moved wellFormed among node.vec, rfl, ?_⟩
      rw [Lru.touch, present]
      exact entries_moved node node.vec

theorem length_index
    (wellFormed : cache.WellFormed) :
    cache.index.keys.length = cache.lru.length := by
  have same : cache.index.keys.Perm (cache.lru.map Node.text) := by
    refine (List.perm_ext_iff_of_nodup cache.index.nodupKeys
      wellFormed.texts).mpr fun text => ?_
    rw [← keys_entries]
    have absent : cache.index.lookup text = none ↔
        text ∉ Lru.keys cache.entries := index_eq_none_iff wellFormed
    rw [AList.lookup_eq_none] at absent
    exact not_iff_not.mp absent
  rw [same.length_eq, List.length_map]

/-- Dropping the last node with its entry of the index. -/
theorem wellFormed_dropped
    (wellFormed : cache.WellFormed)
    {kept : List (Node φ)}
    {last : Node φ}
    (nodes : cache.lru = kept ++ [last]) :
    WellFormed
      { cache with lru := kept, index := cache.index.erase last.text } := by
  obtain ⟨index, texts, identities, allocated, bounded⟩ := wellFormed
  rw [nodes] at index texts identities allocated bounded
  have alone : ∀ node ∈ kept, node.text ≠ last.text := by
    intro node member same
    rw [List.map_append, List.nodup_append] at texts
    exact texts.2.2 _ (List.mem_map_of_mem member) _ List.mem_cons_self same
  refine ⟨?_, ?_, ?_, ?_, ?_⟩
  · intro text identity
    rw [Table.lookup_erase_eq]
    split <;> rename_i same
    · simp only [reduceCtorEq, false_iff]
      rintro ⟨node, member, named, _⟩
      exact alone node member (named.trans same)
    · rw [index]
      simp [Ne.symm same]
  · rw [List.map_append] at texts
    exact texts.of_append_left
  · rw [List.map_append] at identities
    exact identities.of_append_left
  · exact fun node member => allocated node (List.mem_append_left _ member)
  · rw [List.length_append] at bounded
    exact Nat.le_of_add_right_le bounded

/-- Eviction makes room for one more node. -/
theorem evict_spec
    (positive : 1 ≤ cache.maxEntries)
    (wellFormed : cache.WellFormed) :
    ∃ next, cache.evict = some next ∧
      next.Holds cache.maxEntries
        (cache.entries.take (cache.maxEntries - 1)) := by
  have bounded := wellFormed.bounded
  unfold evict
  rw [length_index wellFormed]
  split <;> rename_i full
  · cases last : cache.lru.getLast? with
    | none =>
        rw [List.getLast?_eq_none_iff] at last
        rw [last, List.length_nil] at full
        omega
    | some node =>
        obtain ⟨kept, nodes⟩ := List.getLast?_eq_some_iff.mp last
        have dropped : cache.lru.dropLast = kept := by
          rw [nodes, List.dropLast_concat]
        refine ⟨_, rfl, ?_, rfl, ?_⟩
        · rw [dropped]
          exact wellFormed_dropped wellFormed nodes
        · simp only [entries, List.dropLast_eq_take, List.map_take]
          rw [le_antisymm bounded full]
  · refine ⟨cache, rfl, wellFormed, rfl, ?_⟩
    rw [List.take_of_length_le]
    simp only [entries, List.length_map]
    omega

theorem emplaceFront_spec
    (wellFormed : cache.WellFormed)
    (room : cache.lru.length < cache.maxEntries)
    (absent : text ∉ Lru.keys cache.entries)
    (vec : List φ) :
    (cache.emplaceFront text vec).Holds cache.maxEntries
      ((text, vec) :: cache.entries) := by
  obtain ⟨index, texts, identities, allocated, bounded⟩ := wellFormed
  rw [keys_entries] at absent
  refine ⟨⟨?_, ?_, ?_, ?_, room⟩, rfl, rfl⟩
  · intro other identity
    simp only [emplaceFront, Table.lookup_upsert]
    split <;> rename_i same
    · have uncached : ¬∃ node ∈ cache.lru,
          node.text = other ∧ node.identity = identity := by
        rintro ⟨node, member, named, _⟩
        exact absent (List.mem_map.mpr ⟨node, member, named.trans same⟩)
      simp only [List.mem_cons, or_and_right, exists_or, exists_eq_left,
        uncached]
      simp [same]
    · simp [index, Ne.symm same]
  · exact List.nodup_cons.mpr ⟨absent, texts⟩
  · refine List.nodup_cons.mpr ⟨?_, identities⟩
    intro member
    obtain ⟨node, among, same⟩ := List.mem_map.mp member
    exact absurd (allocated node among) (by rw [same]; exact Nat.lt_irrefl _)
  · intro node member
    rcases List.mem_cons.mp member with rfl | member
    · exact Nat.lt_succ_self _
    · exact Nat.lt_succ_of_lt (allocated node member)

/-- `put` stores an entry in front, within the capacity. -/
theorem put_spec
    (positive : 1 ≤ cache.maxEntries)
    (wellFormed : cache.WellFormed)
    (text : String)
    (vec : List φ) :
    ∃ next, cache.put text vec = some next ∧
      next.Holds cache.maxEntries
        (Lru.put cache.maxEntries text vec cache.entries) := by
  unfold put
  cases found : cache.index.lookup text with
  | none =>
      have absent := (index_eq_none_iff wellFormed).mp found
      obtain ⟨room, evicted, holds⟩ := evict_spec positive wellFormed
      have fewer : room.lru.length < room.maxEntries := by
        have length := congrArg List.length holds.entries
        simp only [entries, List.length_map, List.length_take] at length
        rw [holds.maxEntries]
        omega
      have gone : text ∉ Lru.keys room.entries := by
        rw [holds.entries, Lru.keys, List.map_take]
        exact fun member => absent (List.mem_of_mem_take member)
      have stored := emplaceFront_spec holds.wellFormed fewer gone vec
      rw [evicted]
      refine ⟨_, rfl, stored.wellFormed, ?_, ?_⟩
      · rw [stored.maxEntries, holds.maxEntries]
      · rw [stored.entries, holds.entries, Lru.put, Lru.front_of_not_mem absent]
        obtain ⟨capacity, same⟩ := Nat.exists_eq_add_of_le' positive
        rw [same]
        rfl
  | some identity =>
      obtain ⟨node, among, rfl, rfl⟩ :=
        (wellFormed.index text identity).mp found
      have moved := wellFormed_moved wellFormed among vec
      simp only [splice_eq wellFormed among, Option.map_some, List.tail_cons]
      refine ⟨_, rfl, moved, rfl, ?_⟩
      have fits := moved.bounded
      rw [← List.length_map fun node : Node φ => (node.text, node.vec)] at fits
      rw [entries_moved, Lru.put, ← entries_moved]
      exact (List.take_of_length_le fits).symm

end Refinement

end Cache

/-! ## Calls on the entries -/

/-- What a call does with the entries of a cache. -/
structure Effect (φ α : Type) where
  value : Option α
  asked : List String
  answered : List (String × List φ)
  entries : List (String × List φ)

/-- Look several texts up. -/
def touchAll (texts : List String) (entries : List (String × List φ)) :
    List (String × List φ) :=
  texts.foldl (fun entries text => Lru.touch text entries) entries

/-- Store several vectors. -/
def putAll (maxEntries : Nat) (computed : List (String × List φ))
    (entries : List (String × List φ)) : List (String × List φ) :=
  computed.foldl
    (fun entries entry => Lru.put maxEntries entry.1 entry.2 entries) entries

/-- The texts without an entry. -/
def missing (entries : List (String × List φ)) (texts : List String) :
    List String :=
  texts.filter fun text => (entries.lookup text).isNone

@[simp]
theorem missing_cons_of_some
    {entries : List (String × List φ)}
    {text : String}
    {cached : List φ}
    (found : entries.lookup text = some cached)
    (texts : List String) :
    missing entries (text :: texts) = missing entries texts := by
  simp [missing, found]

@[simp]
theorem missing_cons_of_none
    {entries : List (String × List φ)}
    {text : String}
    (found : entries.lookup text = none)
    (texts : List String) :
    missing entries (text :: texts) = text :: missing entries texts := by
  simp [missing, found]

/-- The vectors of some texts: those there are entries for, and the others as
they were computed, in order. -/
def fill (entries : List (String × List φ)) :
    List String → List (List φ) → List (List φ)
  | [], _ => []
  | text :: texts, computed =>
      match entries.lookup text with
      | some cached => cached :: fill entries texts computed
      | none => computed.headD [] :: fill entries texts computed.tail

/-- `embed` on the entries. -/
def embedEffect (maxEntries : Nat) (entries : List (String × List φ))
    (inner : Inner φ) (text : String) : Effect φ (List φ) :=
  match entries.lookup text with
  | some cached =>
      { value := some cached
        asked := []
        answered := []
        entries := Lru.touch text entries }
  | none =>
      { value := inner.embed text
        asked := [text]
        answered := ((inner.embed text).map (Prod.mk text)).toList
        entries :=
          putAll maxEntries ((inner.embed text).map (Prod.mk text)).toList
            entries }

/-- The vectors computed for the texts without an entry, if any; `none` when
there are none to store. -/
def computed? (entries : List (String × List φ)) (inner : Inner φ)
    (texts : List String) : Option (List (List φ)) :=
  if (missing entries texts).isEmpty then some []
  else
    (inner.embedBatch (missing entries texts)).filter fun computed =>
      computed.length = (missing entries texts).length

/-- `embed_batch` on the entries. -/
def batchEffect (maxEntries : Nat) (entries : List (String × List φ))
    (inner : Inner φ) (texts : List String) : Effect φ (List (List φ)) :=
  let answered := (missing entries texts).zip
    ((computed? entries inner texts).getD [])
  { value :=
      match computed? entries inner texts with
      | some computed => some (fill entries texts computed)
      | none => (inner.embedBatch (missing entries texts)).map fun _ => []
    asked := missing entries texts
    answered
    entries := putAll maxEntries answered (touchAll texts entries) }

/-- A call that was served does what it does on the entries. -/
structure Served.Meets {α : Type} (served : Served φ α) (maxEntries : Nat)
    (effect : Effect φ α) : Prop where
  value : served.value = effect.value
  asked : served.asked = effect.asked
  answered : served.answered = effect.answered
  holds : served.cache.Holds maxEntries effect.entries

section Calls

variable {cache : Cache φ}

theorem Cache.WellFormed.nodup
    (wellFormed : cache.WellFormed) :
    (Lru.keys cache.entries).Nodup := by
  rw [Cache.keys_entries]
  exact wellFormed.texts

theorem embed_meets
    (positive : 1 ≤ cache.maxEntries)
    (wellFormed : cache.WellFormed)
    (inner : Inner φ)
    (text : String) :
    ∃ served, cache.embed inner text = some served ∧
      served.Meets cache.maxEntries
        (embedEffect cache.maxEntries cache.entries inner text) := by
  obtain ⟨next, got, holds⟩ := Cache.tryGet_spec wellFormed text
  unfold Cache.embed embedEffect
  rw [got]
  cases found : cache.entries.lookup text with
  | some cached => exact ⟨_, rfl, rfl, rfl, rfl, holds⟩
  | none =>
      have untouched : Lru.touch text cache.entries = cache.entries :=
        Lru.touch_of_not_mem (Assoc.lookup_eq_none_iff.mp found)
      rw [untouched] at holds
      cases answer : inner.embed text with
      | none => exact ⟨_, rfl, rfl, rfl, rfl, holds⟩
      | some vec =>
          obtain ⟨final, stored, kept⟩ := Cache.put_spec
            (holds.maxEntries ▸ positive) holds.wellFormed text vec
          rw [holds.maxEntries, holds.entries] at kept
          simp only [stored]
          exact ⟨_, rfl, rfl, rfl, rfl, kept⟩

/-- The positions of the texts without an entry. -/
def missingIdx (entries : List (String × List φ)) :
    Nat → List String → List Nat
  | _, [] => []
  | position, text :: texts =>
      if (entries.lookup text).isNone then
        position :: missingIdx entries (position + 1) texts
      else missingIdx entries (position + 1) texts

theorem length_missingIdx
    (entries : List (String × List φ))
    (position : Nat)
    (texts : List String) :
    (missingIdx entries position texts).length =
      (missing entries texts).length := by
  induction texts generalizing position with
  | nil => rfl
  | cons text texts inductionHypothesis =>
      have rest := inductionHypothesis (position + 1)
      unfold missing at rest ⊢
      rw [missingIdx, List.filter_cons]
      split <;> simp [rest]

/-- What the second loop stores, without the positions. -/
theorem zip_missingIdx
    {entries : List (String × List φ)}
    {texts : List String}
    {computed : List (List φ)}
    (whole : computed.length = (missing entries texts).length) :
    ((missing entries texts).zip
        ((missingIdx entries 0 texts).zip computed)).map
          (fun entry => (entry.1, entry.2.2)) =
      (missing entries texts).zip computed := by
  have vectors : ((missingIdx entries 0 texts).zip computed).map Prod.snd =
      computed :=
    List.map_snd_zip (by rw [length_missingIdx, whole])
  conv_rhs => rw [← vectors, List.zip_map_right]
  rfl

theorem missing_cons
    (entries : List (String × List φ))
    (text : String)
    (texts : List String) :
    missing entries (text :: texts) =
      missing entries [text] ++ missing entries texts :=
  List.filter_append [text] texts

theorem missingIdx_cons
    (entries : List (String × List φ))
    (position : Nat)
    (text : String)
    (texts : List String) :
    missingIdx entries position (text :: texts) =
      missingIdx entries position [text] ++
        missingIdx entries (position + 1) texts := by
  rw [missingIdx, missingIdx]
  split <;> rfl

/-- One turn of the first loop, for the text after those looked up before. -/
theorem look_step
    (entries : List (String × List φ))
    (text : String)
    (batch : Batch φ)
    (wellFormed : batch.cache.WellFormed)
    (same : ∀ text, batch.cache.entries.lookup text = entries.lookup text)
    (before rest : List (List φ))
    (results : batch.results = before ++ [] :: rest) :
    ∃ next, batch.look (text, before.length) =
        some
          { cache := next
            results := before ++ (entries.lookup text).getD [] :: rest
            uncachedTexts := batch.uncachedTexts ++ missing entries [text]
            uncachedIdx := batch.uncachedIdx ++
              missingIdx entries before.length [text] } ∧
      next.Holds batch.cache.maxEntries
        (Lru.touch text batch.cache.entries) := by
  obtain ⟨next, got, holds⟩ := Cache.tryGet_spec wellFormed text
  refine ⟨next, ?_, holds⟩
  rw [Batch.look, got, same]
  cases found : entries.lookup text with
  | some cached => simp [missing, missingIdx, found, results]
  | none => simp [missing, missingIdx, found, results]

/-- The first loop fills in the entries there are and collects the other
texts. -/
theorem look_spec
    (entries : List (String × List φ))
    (texts : List String)
    (batch : Batch φ)
    (wellFormed : batch.cache.WellFormed)
    (same : ∀ text, batch.cache.entries.lookup text = entries.lookup text)
    (before : List (List φ))
    (results : batch.results = before ++ List.replicate texts.length []) :
    ∃ next, (texts.zipIdx before.length).foldlM Batch.look batch =
        some
          { cache := next
            results := before ++
              texts.map fun text => (entries.lookup text).getD []
            uncachedTexts := batch.uncachedTexts ++ missing entries texts
            uncachedIdx := batch.uncachedIdx ++
              missingIdx entries before.length texts } ∧
      next.Holds batch.cache.maxEntries
        (touchAll texts batch.cache.entries) := by
  induction texts generalizing batch before with
  | nil =>
      refine ⟨batch.cache, ?_, wellFormed, rfl, rfl⟩
      have whole : batch.results = before := by simpa using results
      simp [missing, missingIdx, ← whole]
  | cons text texts inductionHypothesis =>
      obtain ⟨next, looked, holds⟩ := look_step entries text batch wellFormed
        same before (List.replicate texts.length []) results
      have kept : ∀ other, next.entries.lookup other =
          entries.lookup other := by
        intro other
        rw [holds.entries, Lru.lookup_touch wellFormed.nodup, same]
      obtain ⟨final, rest, ends⟩ := inductionHypothesis
        { cache := next
          results := before ++ (entries.lookup text).getD [] ::
            List.replicate texts.length []
          uncachedTexts := batch.uncachedTexts ++ missing entries [text]
          uncachedIdx := batch.uncachedIdx ++
            missingIdx entries before.length [text] }
        holds.wellFormed kept (before ++ [(entries.lookup text).getD []])
        (List.append_cons before _ _)
      simp only [List.length_append, List.length_singleton,
        List.append_assoc, List.singleton_append] at rest
      rw [holds.maxEntries, holds.entries] at ends
      refine ⟨final, ?_, ends⟩
      rw [List.zipIdx_cons, List.foldlM_cons, looked,
        missing_cons entries text texts,
        missingIdx_cons entries before.length text texts]
      exact rest

/-- The second loop stores what was computed and writes it to its places. -/
theorem store_spec
    (computed : List (String × Nat × List φ))
    (batch : Batch φ)
    (positive : 1 ≤ batch.cache.maxEntries)
    (wellFormed : batch.cache.WellFormed) :
    ∃ next, computed.foldlM Batch.store batch =
        some { batch with
          cache := next
          results := computed.foldl
            (fun results entry => results.set entry.2.1 entry.2.2)
            batch.results } ∧
      next.Holds batch.cache.maxEntries
        (putAll batch.cache.maxEntries
          (computed.map fun entry => (entry.1, entry.2.2))
          batch.cache.entries) := by
  induction computed generalizing batch with
  | nil => exact ⟨batch.cache, rfl, wellFormed, rfl, rfl⟩
  | cons entry computed inductionHypothesis =>
      obtain ⟨next, stored, holds⟩ :=
        Cache.put_spec positive wellFormed entry.1 entry.2.2
      obtain ⟨final, rest, ends⟩ := inductionHypothesis
        { batch with
          cache := next
          results := batch.results.set entry.2.1 entry.2.2 }
        (holds.maxEntries ▸ positive) holds.wellFormed
      refine ⟨final, ?_, ?_⟩
      · rw [List.foldlM_cons, Batch.store, stored]
        exact rest
      · rw [holds.maxEntries, holds.entries] at ends
        exact ends

/-- Writing what was computed to the places of the texts without an entry. -/
theorem foldl_set_missingIdx
    (entries : List (String × List φ))
    (texts : List String)
    (asked : List String)
    (computed : List (List φ))
    (whole : computed.length = (missing entries texts).length)
    (paired : asked.length = computed.length)
    (before : List (List φ)) :
    (asked.zip ((missingIdx entries before.length texts).zip computed)).foldl
        (fun results entry => results.set entry.2.1 entry.2.2)
        (before ++ texts.map fun text => (entries.lookup text).getD []) =
      before ++ fill entries texts computed := by
  induction texts generalizing asked computed before with
  | nil => simp [missingIdx, fill]
  | cons text texts inductionHypothesis =>
      cases found : entries.lookup text with
      | some cached =>
          rw [missing_cons_of_some found] at whole
          have rest := inductionHypothesis asked computed whole paired
            (before ++ [cached])
          simpa [missingIdx, fill, found] using rest
      | none =>
          rw [missing_cons_of_none found] at whole
          obtain ⟨vec, later, rfl⟩ :=
            List.exists_cons_of_length_eq_add_one whole
          obtain ⟨first, others, rfl⟩ :=
            List.exists_cons_of_length_eq_add_one paired
          have rest := inductionHypothesis others later (by simpa using whole)
            (by simpa using paired) (before ++ [vec])
          simpa [missingIdx, fill, found] using rest

theorem batchEffect_of_computed
    {maxEntries : Nat}
    {entries : List (String × List φ)}
    {inner : Inner φ}
    {texts : List String}
    {computed : List (List φ)}
    (computes : computed? entries inner texts = some computed) :
    batchEffect maxEntries entries inner texts =
      { value := some (fill entries texts computed)
        asked := missing entries texts
        answered := (missing entries texts).zip computed
        entries := putAll maxEntries ((missing entries texts).zip computed)
          (touchAll texts entries) } := by
  simp only [batchEffect, computes, Option.getD_some]

theorem batchEffect_of_not_computed
    {maxEntries : Nat}
    {entries : List (String × List φ)}
    {inner : Inner φ}
    {texts : List String}
    (computes : computed? entries inner texts = none) :
    batchEffect maxEntries entries inner texts =
      { value := (inner.embedBatch (missing entries texts)).map fun _ => []
        asked := missing entries texts
        answered := []
        entries := touchAll texts entries } := by
  simp only [batchEffect, computes, Option.getD_none, List.zip_nil_right]
  rfl

theorem embedBatch_meets
    (positive : 1 ≤ cache.maxEntries)
    (wellFormed : cache.WellFormed)
    (inner : Inner φ)
    (texts : List String) :
    ∃ served, cache.embedBatch inner texts = some served ∧
      served.Meets cache.maxEntries
        (batchEffect cache.maxEntries cache.entries inner texts) := by
  obtain ⟨next, looked, holds⟩ := look_spec cache.entries texts
    { cache, results := List.replicate texts.length [] } wellFormed
    (fun _ => rfl) [] rfl
  simp only [List.length_nil, List.nil_append] at looked
  unfold Cache.embedBatch
  simp only [looked, Option.bind_some]
  split <;> rename_i found
  · -- Every text has an entry.
    have complete : missing cache.entries texts = [] :=
      List.isEmpty_iff.mp found
    have computes : computed? cache.entries inner texts = some [] :=
      if_pos found
    have filled := foldl_set_missingIdx cache.entries texts [] []
      (by rw [complete]; rfl) rfl []
    rw [batchEffect_of_computed computes, complete]
    exact ⟨_, rfl, congrArg some filled, rfl, rfl, holds⟩
  · cases answer : inner.embedBatch (missing cache.entries texts) with
    | none =>
        have computes : computed? cache.entries inner texts = none := by
          simp [computed?, found, answer]
        rw [batchEffect_of_not_computed computes, answer]
        exact ⟨_, rfl, rfl, rfl, rfl, holds⟩
    | some computed =>
        simp only
        split <;> rename_i length
        · have computes : computed? cache.entries inner texts = none := by
            simp [computed?, found, answer, Option.filter, length]
          rw [batchEffect_of_not_computed computes, answer]
          exact ⟨_, rfl, rfl, rfl, rfl, holds⟩
        · have whole := not_ne_iff.mp length
          have computes : computed? cache.entries inner texts =
              some computed := by
            simp [computed?, found, answer, Option.filter, whole]
          have filled := foldl_set_missingIdx cache.entries texts
            (missing cache.entries texts) computed whole whole.symm []
          obtain ⟨final, stored, ends⟩ := store_spec
            ((missing cache.entries texts).zip
              ((missingIdx cache.entries 0 texts).zip computed))
            { cache := next
              results := texts.map fun text =>
                (cache.entries.lookup text).getD []
              uncachedTexts := missing cache.entries texts
              uncachedIdx := missingIdx cache.entries 0 texts }
            (holds.maxEntries ▸ positive) holds.wellFormed
          rw [zip_missingIdx whole, holds.maxEntries, holds.entries] at ends
          rw [stored, batchEffect_of_computed computes]
          exact ⟨_, rfl, congrArg some filled, rfl, rfl, ends⟩

end Calls

end Provider
end Walkrie
