import Walkrie.Provider.Failure
import Walkrie.Config.BatchSize
import Walkrie.Dispatcher.Size
import Walkrie.Backfill.Drain

/-!
# Embedding a text once

The sinks of a process share the cache, so that a text several of them need is
computed for the first and found by the others.  A batch with no more texts
than the cache holds leaves all of them in the cache: the texts that are found
are used before the others are stored, and what is used last is evicted last.
The cache is as large as a batch of the dispatcher.  The worker claims batches
of a size of its own, and a text it hands to several sinks is computed again
when the batch has more texts than that.
-/

namespace Walkrie
namespace Provider

open Sink Config
open Backfill (ClaimedRow noteInsert noteRow notes toChangeEvent)

variable {φ : Type}

/-- The provider returns one vector a text. -/
def Inner.KeepsLength (inner : Inner φ) : Prop :=
  ∀ texts, ∃ vectors, inner.embedBatch texts = some vectors ∧
    vectors.length = texts.length

/-- Calls of `embed_batch`, each with the provider behind the cache as it is
during the call: the texts each of them asks that provider for, and the cache
after them. -/
def Cache.embedBatches (cache : Cache φ) :
    List (Inner φ × List String) → Option (List (List String) × Cache φ)
  | [] => some ([], cache)
  | (inner, texts) :: calls =>
      (cache.embedBatch inner texts).bind fun served =>
        (served.cache.embedBatches calls).map fun (asked, final) =>
          (served.asked :: asked, final)

/-- The texts are cached, calls for some of them ask for none, and after such
calls no call asks for one of them. -/
structure Cache.Reuses (cache : Cache φ) (texts : List String) : Prop where
  cached : ∀ text ∈ texts, ∃ vec next,
    cache.tryGet text = some (some vec, next)
  silent : ∀ calls : List (Inner φ × List String),
    (∀ call ∈ calls, call.2 ⊆ texts) →
      ∃ final, cache.embedBatches calls = some (calls.map fun _ => [], final) ∧
        ∀ inner others served,
          final.embedBatch inner others = some served →
            ∀ text ∈ texts, text ∉ served.asked

/-- The texts each embedding sink requests for the rows the worker claimed. -/
def requests (setup : Backfill.Drain.Setup) (claimed : List ClaimedRow) :
    List (List String) :=
  setup.sinks.filterMap fun handle =>
    handle.sink.mappings?.map fun mappings =>
      textsToEmbed (plan mappings (claimed.map toChangeEvent))

/-- No two of the sinks ask the provider behind the cache for one text. -/
def Cache.EmbedsOnce (cache : Cache φ) (inner : Inner φ)
    (requests : List (List String)) : Prop :=
  ∃ asked final,
    cache.embedBatches (requests.map (Prod.mk inner)) = some (asked, final) ∧
      asked.Pairwise List.Disjoint

theorem keepsLength_lengths : lengths.KeepsLength :=
  fun _ => ⟨_, rfl, List.length_map _⟩

/-! ## The cache after a batch -/

section Keys

variable {cache : Cache φ}
variable {inner : Inner φ}
variable {entries : List (String × List φ)}
variable {texts : List String}

/-- The texts of a call in the order they are used: those there are entries
for, then the others. -/
def used (entries : List (String × List φ)) (texts : List String) :
    List String :=
  texts.filter (· ∉ missing entries texts) ++ missing entries texts

theorem mem_used
    {text : String} :
    text ∈ used entries texts ↔ text ∈ texts := by
  have among : text ∈ missing entries texts → text ∈ texts :=
    fun member => (mem_missing.mp member).1
  rw [used, List.mem_append, List.mem_filter, decide_eq_true_eq]
  tauto

theorem card_used :
    (used entries texts).toFinset.card = texts.toFinset.card := by
  congr 1
  ext text
  rw [List.mem_toFinset, List.mem_toFinset, mem_used]

theorem tracks_entries
    (wellFormed : cache.WellFormed) :
    Tracks cache.maxEntries cache.entries cache.entries
      (Lru.keys cache.entries) where
  distinct := wellFormed.nodup
  keys := by
    have length : (Lru.keys cache.entries).length ≤ cache.maxEntries := by
      rw [Cache.keys_entries, List.length_map]
      exact wellFormed.bounded
    rw [List.take_of_length_le length]
  latest := fun _ member =>
    (Assoc.lookup_eq_some_iff wellFormed.nodup).mpr member

/-- Every text the provider is asked for is answered. -/
theorem map_fst_answered
    (keepsLength : inner.KeepsLength)
    (maxEntries : Nat) :
    (batchEffect maxEntries entries inner texts).answered.map Prod.fst =
      missing entries texts := by
  obtain ⟨vectors, answer, length⟩ := keepsLength (missing entries texts)
  have computed : ((computed? entries inner texts).getD []).length =
      (missing entries texts).length := by
    unfold computed?
    split <;> rename_i empty
    · rw [List.isEmpty_iff.mp empty]
      rfl
    · simp [answer, length, Option.filter]
  exact List.map_fst_zip computed.ge

/-- A batch leaves the texts used last. -/
theorem keys_batchEffect
    (wellFormed : cache.WellFormed)
    (keepsLength : inner.KeepsLength) :
    Lru.keys (batchEffect cache.maxEntries cache.entries inner texts).entries =
      ((used cache.entries texts).foldl
        (fun recent text => Lru.use text recent)
        (Lru.keys cache.entries)).take cache.maxEntries := by
  have keys := ((tracks_entries wellFormed).effect inner
    (.embedBatch texts)).keys
  simp only [Request.effect, map_fst_answered keepsLength] at keys
  exact keys

end Keys

/-! ## Calls for cached texts -/

section Cached

variable {cache : Cache φ}
variable {texts : List String}

theorem missing_eq_nil_iff
    {entries : List (String × List φ)} :
    missing entries texts = [] ↔ texts ⊆ Lru.keys entries := by
  rw [List.eq_nil_iff_forall_not_mem]
  simp only [mem_missing, not_and, not_not]
  rfl

/-- A call for cached texts asks for none, and keeps what is cached. -/
theorem embedBatch_of_subset
    (wellFormed : cache.WellFormed)
    (inner : Inner φ)
    (cached : texts ⊆ Lru.keys cache.entries) :
    ∃ served, cache.embedBatch inner texts = some served ∧
      served.asked = [] ∧ served.cache.WellFormed ∧
        served.cache.maxEntries = cache.maxEntries ∧
          ∀ text, text ∈ Lru.keys served.cache.entries ↔
            text ∈ Lru.keys cache.entries := by
  have complete := missing_eq_nil_iff.mpr cached
  rcases Nat.eq_zero_or_pos cache.maxEntries with zero | positive
  · -- A cache without room has no text to be asked for.
    have empty : cache.lru = [] := by
      have bounded := wellFormed.bounded
      rw [zero] at bounded
      exact List.eq_nil_of_length_eq_zero (Nat.le_zero.mp bounded)
    have noTexts : texts = [] := by
      rw [Cache.keys_entries, empty] at cached
      exact List.subset_nil.mp cached
    subst noTexts
    exact ⟨_, rfl, rfl, wellFormed, rfl, fun _ => Iff.rfl⟩
  · obtain ⟨served, answered, meets⟩ :=
      embedBatch_meets positive wellFormed inner texts
    refine ⟨served, answered, meets.asked.trans complete,
      meets.holds.wellFormed, meets.holds.maxEntries, fun text => ?_⟩
    have entries : served.cache.entries = touchAll texts cache.entries := by
      rw [meets.holds.entries]
      simp only [batchEffect, complete, List.zip_nil_left]
      rfl
    rw [entries]
    simp only [Lru.keys, List.mem_map, mem_touchAll wellFormed.nodup]

theorem embedBatches_of_subset
    (calls : List (Inner φ × List String))
    (wellFormed : cache.WellFormed)
    (cached : texts ⊆ Lru.keys cache.entries)
    (within : ∀ call ∈ calls, call.2 ⊆ texts) :
    ∃ final, cache.embedBatches calls = some (calls.map fun _ => [], final) ∧
      final.WellFormed ∧ final.maxEntries = cache.maxEntries ∧
        texts ⊆ Lru.keys final.entries := by
  induction calls generalizing cache with
  | nil => exact ⟨cache, rfl, wellFormed, rfl, cached⟩
  | cons call calls inductionHypothesis =>
      rw [List.forall_mem_cons] at within
      obtain ⟨served, answered, asked, kept, same, keys⟩ :=
        embedBatch_of_subset wellFormed call.1
          (List.Subset.trans within.1 cached)
      obtain ⟨final, executed, ordered, capacity, still⟩ :=
        inductionHypothesis kept
          (fun text member => (keys text).mpr (cached member)) within.2
      refine ⟨final, ?_, ordered, capacity.trans same, still⟩
      simp only [Cache.embedBatches, answered, Option.bind_some, executed,
        asked, Option.map_some, List.map_cons]

/-- What a call asks for is not cached. -/
theorem notMem_asked
    (wellFormed : cache.WellFormed)
    {inner : Inner φ}
    {others : List String}
    {served : Served φ (List (List φ))}
    (answered : cache.embedBatch inner others = some served)
    {text : String}
    (cached : text ∈ Lru.keys cache.entries) :
    text ∉ served.asked := by
  have positive : 1 ≤ cache.maxEntries := by
    rw [Cache.keys_entries] at cached
    have positive := List.length_pos_of_mem cached
    rw [List.length_map] at positive
    exact Nat.le_trans positive wellFormed.bounded
  obtain ⟨served', answered', meets⟩ :=
    embedBatch_meets positive wellFormed inner others
  cases answered.symm.trans answered'
  rw [meets.asked]
  exact fun asked => (mem_missing.mp asked).2 cached

theorem reuses_of_subset
    (wellFormed : cache.WellFormed)
    (cached : texts ⊆ Lru.keys cache.entries) :
    cache.Reuses texts where
  cached := by
    intro text member
    obtain ⟨next, got, _⟩ := Cache.tryGet_spec wellFormed text
    cases found : cache.entries.lookup text with
    | none => exact absurd (cached member) (Assoc.lookup_eq_none_iff.mp found)
    | some vec => exact ⟨vec, next, found ▸ got⟩
  silent := by
    intro calls within
    obtain ⟨final, executed, ordered, _, still⟩ :=
      embedBatches_of_subset calls wellFormed cached within
    exact ⟨final, executed, fun inner others served answered text member =>
      notMem_asked ordered answered (still member)⟩

/-- A batch with no more texts than the cache holds leaves all of them in
it. -/
theorem embedBatch_caches
    (wellFormed : cache.WellFormed)
    {inner : Inner φ}
    (keepsLength : inner.KeepsLength)
    (few : texts.toFinset.card ≤ cache.maxEntries) :
    ∃ served, cache.embedBatch inner texts = some served ∧
      served.cache.WellFormed ∧ texts ⊆ Lru.keys served.cache.entries := by
  rcases Nat.eq_zero_or_pos cache.maxEntries with zero | positive
  · have noTexts : texts = [] := by
      rw [zero, Nat.le_zero, Finset.card_eq_zero] at few
      exact (List.toFinset_eq_empty_iff _).mp few
    subst noTexts
    exact ⟨_, rfl, wellFormed, List.nil_subset _⟩
  · obtain ⟨served, answered, meets⟩ :=
      embedBatch_meets positive wellFormed inner texts
    refine ⟨served, answered, meets.holds.wellFormed, fun text member => ?_⟩
    rw [meets.holds.entries, keys_batchEffect wellFormed keepsLength]
    have same : (used cache.entries texts).toFinset.card =
        texts.toFinset.card := card_used
    exact Lru.mem_take_foldl_use (same.trans_le few) (mem_used.mpr member)

end Cached

/-! ## Calls for few texts -/

section Few

variable {cache : Cache φ}
variable {inner : Inner φ}

theorem embedBatches_cons
    {texts : List String}
    {served : Served φ (List (List φ))}
    (answered : cache.embedBatch inner texts = some served)
    (calls : List (Inner φ × List String)) :
    cache.embedBatches ((inner, texts) :: calls) =
      (served.cache.embedBatches calls).map fun (asked, final) =>
        (served.asked :: asked, final) := by
  rw [Cache.embedBatches, answered, Option.bind_some]

/-- One call after others that used few texts: it asks for none of them, and
its own texts count as used afterwards. -/
theorem embedBatch_of_tracks
    (wellFormed : cache.WellFormed)
    (keepsLength : inner.KeepsLength)
    (positive : 1 ≤ cache.maxEntries)
    {answers : List (String × List φ)}
    {earlier initial texts : List String}
    (tracks : Tracks cache.maxEntries cache.entries answers
      (earlier.foldl (fun recent text => Lru.use text recent) initial))
    (few : earlier.toFinset.card ≤ cache.maxEntries) :
    ∃ served, cache.embedBatch inner texts = some served ∧
      served.cache.WellFormed ∧
      served.cache.maxEntries = cache.maxEntries ∧
      (∀ text ∈ served.asked, text ∈ texts ∧ text ∉ earlier) ∧
      ∃ answers, Tracks cache.maxEntries served.cache.entries answers
        ((earlier ++ used cache.entries texts).foldl
          (fun recent text => Lru.use text recent) initial) := by
  obtain ⟨served, answered, meets⟩ :=
    embedBatch_meets positive wellFormed inner texts
  have next := tracks.effect inner (.embedBatch texts)
  simp only [Request.effect, map_fst_answered keepsLength] at next
  rw [← meets.holds.entries, ← List.foldl_append] at next
  refine ⟨served, answered, meets.holds.wellFormed, meets.holds.maxEntries,
    fun text member => ?_, _, next⟩
  rw [meets.asked] at member
  obtain ⟨among, uncached⟩ := mem_missing.mp member
  refine ⟨among, fun before => uncached ?_⟩
  rw [tracks.keys]
  exact Lru.mem_take_foldl_use few before

/-- Calls that together use no more texts than the cache holds never ask for a
text twice, whatever the cache held before. -/
theorem embedBatches_of_card_le
    (wellFormed : cache.WellFormed)
    (keepsLength : inner.KeepsLength)
    (positive : 1 ≤ cache.maxEntries)
    {answers : List (String × List φ)}
    {earlier initial : List String}
    (tracks : Tracks cache.maxEntries cache.entries answers
      (earlier.foldl (fun recent text => Lru.use text recent) initial))
    (requests : List (List String))
    (few : (earlier ++ requests.flatten).toFinset.card ≤ cache.maxEntries) :
    ∃ asked final,
      cache.embedBatches (requests.map (Prod.mk inner)) =
          some (asked, final) ∧
        asked.Pairwise List.Disjoint ∧
        ∀ texts ∈ asked, texts.Disjoint earlier := by
  induction requests generalizing cache answers earlier with
  | nil => exact ⟨[], cache, rfl, .nil, by simp⟩
  | cons texts requests inductionHypothesis =>
      have before : earlier.toFinset.card ≤ cache.maxEntries := by
        refine (Finset.card_le_card ?_).trans few
        rw [List.toFinset_append]
        exact Finset.subset_union_left
      obtain ⟨served, answered, ordered, capacity, fresh, answers, next⟩ :=
        embedBatch_of_tracks wellFormed keepsLength positive tracks before
      have still : ((earlier ++ used cache.entries texts) ++
          requests.flatten).toFinset.card ≤ served.cache.maxEntries := by
        rw [capacity]
        convert few using 2
        ext text
        simp [mem_used]
      rw [← capacity] at next positive
      obtain ⟨asked, final, executed, apart, later⟩ :=
        inductionHypothesis ordered positive next still
      refine ⟨served.asked :: asked, final, ?_, ?_, ?_⟩
      · rw [List.map_cons, embedBatches_cons answered, executed]
        rfl
      · refine List.pairwise_cons.mpr ⟨fun others member text asks again => ?_,
          apart⟩
        refine later others member again (List.mem_append_right _ ?_)
        exact mem_used.mpr (fresh text asks).1
      · refine List.forall_mem_cons.mpr ⟨?_, fun others member text => ?_⟩
        · exact fun text asks => (fresh text asks).2
        · exact fun again used =>
            later others member again (List.mem_append_left _ used)

/-- Sinks that together request no more texts than the cache holds. -/
theorem embedsOnce_of_card_flatten_le
    (wellFormed : cache.WellFormed)
    (keepsLength : inner.KeepsLength)
    {requests : List (List String)}
    (few : requests.flatten.toFinset.card ≤ cache.maxEntries) :
    cache.EmbedsOnce inner requests := by
  rcases Nat.eq_zero_or_pos cache.maxEntries with zero | positive
  · -- A cache without room is asked for no text.
    rw [zero, Nat.le_zero, Finset.card_eq_zero] at few
    have silent : ∀ request ∈ requests, request = [] :=
      List.flatten_eq_nil_iff.mp ((List.toFinset_eq_empty_iff _).mp few)
    obtain ⟨final, executed, _⟩ := embedBatches_of_subset
      (requests.map (Prod.mk inner)) wellFormed (List.nil_subset _) (by
        intro call member
        obtain ⟨request, among, rfl⟩ := List.mem_map.mp member
        rw [silent request among]
        exact List.nil_subset _)
    refine ⟨_, final, executed, ?_⟩
    refine List.pairwise_map.mpr (List.pairwise_of_forall ?_)
    exact fun _ _ => List.disjoint_nil_left _
  · obtain ⟨asked, final, executed, apart, _⟩ := embedBatches_of_card_le
      wellFormed keepsLength positive (tracks_entries wellFormed) requests
      (show ([] ++ requests.flatten).toFinset.card ≤ _ from few)
    exact ⟨asked, final, executed, apart⟩

end Few

/-! ## Batches of the dispatcher -/

section Dispatched

variable {batchSize size : UInt64}
variable {turns : Nat}

theorem le_of_doubleUntil
    {bound final : UInt64}
    (ended : doubleUntil bound turns size = some final) :
    bound ≤ final := by
  induction turns generalizing size with
  | zero => cases ended
  | succ turns inductionHypothesis =>
      rw [doubleUntil] at ended
      split at ended <;> rename_i below
      · exact inductionHypothesis ended
      · cases ended
        exact UInt64.not_lt.mp below

/-- The cache is as large as a batch. -/
theorem le_cacheSizeForBatch
    (computed : cacheSizeForBatch turns batchSize = some size) :
    max batchSize.toNat 16 ≤ size.toNat := by
  rw [← toNat_atLeastSixteen]
  exact UInt64.le_iff_toNat_le.mp (le_of_doubleUntil computed)

/-- A sink requests no more texts than there are events. -/
theorem card_textsToEmbed_le
    (mappings : List TableMapping)
    (events : List ChangeEvent) :
    (textsToEmbed (plan mappings events)).toFinset.card ≤ events.length :=
  (List.toFinset_card_le _).trans
    ((List.length_filterMap_le _ _).trans (List.length_filterMap_le _ _))

/-- Texts no more than the cache holds are cached after a call and asked for by
no call for some of them.  A batch of the dispatcher has no more for any one
sink, so a second sink asks for none the first embedded.  Sinks that together
request no more than the cache holds ask for no text twice. -/
theorem batch_embedded_once
    {cache : Cache φ}
    (wellFormed : cache.WellFormed)
    {inner : Inner φ}
    (keepsLength : inner.KeepsLength) :
    (∀ texts : List String, texts.toFinset.card ≤ cache.maxEntries →
      ∃ served, cache.embedBatch inner texts = some served ∧
        served.cache.Reuses texts) ∧
      (∀ (turns : Nat) (batchSize size : UInt64),
        cacheSizeForBatch turns batchSize = some size →
        cache.maxEntries = size.toNat →
        ∀ {σ ρ : Type} (settings : Dispatcher.Settings)
          (state : Dispatcher.State σ ρ) (batch : Dispatcher.Batch σ),
          settings.maxBatchSize = batchSize.toNat →
          Transition.Reachable (Dispatcher.step settings) (fun _ _ => True) {}
            state →
          Dispatcher.Output.dispatched batch ∈ state.trace →
          ∀ mappings, ∃ served,
            cache.embedBatch inner
                (textsToEmbed (plan mappings batch.events)) = some served ∧
              served.cache.Reuses
                (textsToEmbed (plan mappings batch.events))) ∧
      ∀ (sinks : List (List TableMapping)) (events : List ChangeEvent),
        (sinks.flatMap fun mappings =>
          textsToEmbed (plan mappings events)).toFinset.card ≤
            cache.maxEntries →
        cache.EmbedsOnce inner (sinks.map fun mappings =>
          textsToEmbed (plan mappings events)) := by
  have once : ∀ texts : List String,
      texts.toFinset.card ≤ cache.maxEntries →
        ∃ served, cache.embedBatch inner texts = some served ∧
          served.cache.Reuses texts := by
    intro texts few
    obtain ⟨served, answered, ordered, cached⟩ :=
      embedBatch_caches wellFormed keepsLength few
    exact ⟨served, answered, reuses_of_subset ordered cached⟩
  refine ⟨once, ?_, fun sinks events few =>
    embedsOnce_of_card_flatten_le wellFormed keepsLength few⟩
  intro turns batchSize size computed capacity σ ρ settings state batch
    maximum reachable dispatched mappings
  refine once _ ?_
  have enough := le_cacheSizeForBatch computed
  have bounded := Dispatcher.reachable_bounded reachable batch dispatched
  have texts := card_textsToEmbed_le mappings batch.events
  have length : batch.events.length = batch.jobs.length :=
    List.length_map _
  omega

/-- One note in a batch of its own. -/
def noteBatch : Dispatcher.Batch Unit :=
  { first := 0
    jobs := [{ ev := noteInsert "1" "text", sinks := [⟨(), true⟩] }]
    sinks := [⟨(), true⟩] }

theorem batch_embedded_once_note :
    (∃ served, Cache.embedBatch { maxEntries := 16 } lengths ["a", "bb", "a"] =
        some served ∧
      served.cache.Reuses ["a", "bb", "a"]) ∧
      (∃ served, Cache.embedBatch { maxEntries := 16 } lengths
          (textsToEmbed (plan [notes] noteBatch.events)) = some served ∧
        served.cache.Reuses (textsToEmbed (plan [notes] noteBatch.events))) ∧
      ({ maxEntries := 16 } : Cache Nat).EmbedsOnce lengths
        ([[notes], [notes]].map fun mappings =>
          textsToEmbed (plan mappings noteBatch.events)) := by
  have once := batch_embedded_once (wellFormed_empty 16) keepsLength_lengths
  obtain ⟨state, reachable, dispatched⟩ := Transition.exists_reachable_of_run
    (fun _ _ => True)
    [.post { ev := noteInsert "1" "text", sinks := [⟨(), true⟩] },
      .checkRunning, .wait true 0, .collect 0 false]
    (fun _ _ _ => trivial)
    (show (Transition.run (Dispatcher.step {})
        ({} : Dispatcher.State Unit Unit) _).any
      (fun state => decide (.dispatched noteBatch ∈ state.trace)) = true by
        decide)
  exact ⟨once.1 ["a", "bb", "a"] (by decide),
    once.2.1 5 1 16 (by decide) rfl {} state noteBatch rfl reachable
      (of_decide_eq_true dispatched) [notes],
    once.2.2 [[notes], [notes]] noteBatch.events (by decide)⟩

/-- Notes of which the title is embedded. -/
def noteTitles : TableMapping :=
  TableMapping.resolveColumns
    { sourceTable := "notes"
      columns := [⟨"id", "note_id", "id"⟩, ⟨"title", "text", "embed"⟩] }

/-- A note whose body and title differ from those of every other note. -/
def titledJob (id : Nat) : Dispatcher.EventJob Unit :=
  { ev :=
      { op := .insert
        tableName := "notes"
        newRow := some
          { tableName := "notes"
            kind := .insert
            columns :=
              [{ name := "id", textValue := toString id },
                { name := "body", textValue := "body " ++ toString id },
                { name := "title", textValue := "title " ++ toString id }] } }
    sinks := [⟨(), true⟩] }

/-- Sixteen notes in one batch. -/
def titledBatch : Dispatcher.Batch Unit :=
  { first := 0
    jobs := (List.range 16).map titledJob
    sinks := [⟨(), true⟩] }

/-- Three sinks embed the bodies, the titles and again the bodies of a batch as
large as the cache.  The titles push the bodies out, and the third sink asks
for them again. -/
theorem embedded_again_titledBatch :
    cacheSizeForBatch 5 16 = some 16 ∧
      (∃ state : Dispatcher.State Unit Unit,
        Transition.Reachable (Dispatcher.step { maxBatchSize := 16 })
            (fun _ _ => True) {} state ∧
          .dispatched titledBatch ∈ state.trace) ∧
      ¬({ maxEntries := 16 } : Cache Nat).EmbedsOnce lengths
        ([[notes], [noteTitles], [notes]].map fun mappings =>
          textsToEmbed (plan mappings titledBatch.events)) := by
  refine ⟨by decide, ?_, ?_⟩
  · obtain ⟨state, reachable, dispatched⟩ := Transition.exists_reachable_of_run
      (fun _ _ => True)
      ((List.range 16).map (.post ∘ titledJob) ++
        [.checkRunning, .wait true 0] ++
        List.replicate 16 (.collect 0 true))
      (fun _ _ _ => trivial)
      (show (Transition.run (Dispatcher.step { maxBatchSize := 16 })
          ({} : Dispatcher.State Unit Unit) _).any
        (fun state => decide (.dispatched titledBatch ∈ state.trace)) = true by
          decide +kernel)
    exact ⟨state, reachable, of_decide_eq_true dispatched⟩
  · rintro ⟨asked, final, executed, apart⟩
    have bodies : (Cache.embedBatches ({ maxEntries := 16 } : Cache Nat)
        (([[notes], [noteTitles], [notes]].map fun mappings =>
          textsToEmbed (plan mappings titledBatch.events)).map
            (Prod.mk lengths))).map
          (fun result => result.1.map fun texts => decide ("body 0" ∈ texts)) =
        some [true, false, true] := by decide +kernel
    rw [executed, Option.map_some, Option.some_inj] at bodies
    obtain ⟨first, rest, rfl, body, later⟩ := List.map_eq_cons_iff.mp bodies
    obtain ⟨_, _, rfl, _, last⟩ := List.map_eq_cons_iff.mp later
    obtain ⟨third, _, rfl, again, _⟩ := List.map_eq_cons_iff.mp last
    exact (List.pairwise_cons.mp apart).1 third (by simp)
      (of_decide_eq_true body) (of_decide_eq_true again)

end Dispatched

/-! ## Batches of the worker -/

section Drained

variable {cache : Cache φ}
variable {inner : Inner φ}

/-- Sinks that request the same few texts. -/
theorem embedsOnce_of_card_le
    (wellFormed : cache.WellFormed)
    (keepsLength : inner.KeepsLength)
    {texts : List String}
    (few : texts.toFinset.card ≤ cache.maxEntries)
    {requests : List (List String)}
    (alike : ∀ request ∈ requests, request = texts) :
    cache.EmbedsOnce inner requests := by
  refine embedsOnce_of_card_flatten_le wellFormed keepsLength ?_
  refine (Finset.card_le_card fun text member => ?_).trans few
  obtain ⟨request, among, within⟩ :=
    List.mem_flatten.mp (List.mem_toFinset.mp member)
  rw [alike request among] at within
  exact List.mem_toFinset.mpr within

/-- Two sinks that request more texts than the cache holds, when it is
empty. -/
theorem not_embedsOnce
    (keepsLength : inner.KeepsLength)
    {maxEntries : Nat}
    (positive : 1 ≤ maxEntries)
    {texts : List String}
    (many : maxEntries < texts.toFinset.card)
    (requests : List (List String)) :
    ¬({ maxEntries } : Cache φ).EmbedsOnce inner
      (texts :: texts :: requests) := by
  rintro ⟨asked, final, executed, apart⟩
  have fresh : ({ maxEntries } : Cache φ).WellFormed :=
    wellFormed_empty maxEntries
  obtain ⟨first, answered, meets⟩ :=
    embedBatch_meets positive fresh inner texts
  obtain ⟨second, answered', meets'⟩ := embedBatch_meets
    (meets.holds.maxEntries ▸ positive) meets.holds.wellFormed inner texts
  rw [List.map_cons, List.map_cons, embedBatches_cons answered,
    embedBatches_cons answered'] at executed
  simp only [Option.map_map, Option.map_eq_some_iff] at executed
  obtain ⟨⟨rest, _⟩, _, same⟩ := executed
  cases same
  -- A text that is evicted while the others are stored is requested again.
  have distinct : maxEntries <
      (used ({ maxEntries } : Cache φ).entries texts).toFinset.card := by
    rw [card_used]
    exact many
  obtain ⟨text, member, gone⟩ :
      ∃ text ∈ used ({ maxEntries } : Cache φ).entries texts,
        text ∉ Lru.keys first.cache.entries := by
    rw [meets.holds.entries, keys_batchEffect fresh keepsLength]
    exact Lru.exists_notMem_take_foldl_use distinct
  rw [mem_used] at member
  have disjoint := (List.pairwise_cons.mp apart).1 _ List.mem_cons_self
  refine disjoint (show text ∈ first.asked from ?_)
    (show text ∈ second.asked from ?_)
  · rw [meets.asked]
    exact mem_missing.mpr ⟨member, List.not_mem_nil⟩
  · rw [meets'.asked]
    exact mem_missing.mpr ⟨member, gone⟩

/-- A batch the worker claims is embedded once for all sinks, whatever the
cache holds, exactly when it has no more texts than the cache, unless only one
sink embeds. -/
theorem drained_embedded_once_iff
    (setup : Backfill.Drain.Setup)
    (claimed : List ClaimedRow)
    (texts : List String)
    (alike : ∀ request ∈ requests setup claimed, request = texts)
    {turns : Nat}
    {batchSize size : UInt64}
    (computed : cacheSizeForBatch turns batchSize = some size) :
    (∀ (cache : Cache φ) (inner : Inner φ), cache.WellFormed →
      cache.maxEntries = size.toNat → inner.KeepsLength →
        cache.EmbedsOnce inner (requests setup claimed)) ↔
      texts.toFinset.card ≤ size.toNat ∨
        (requests setup claimed).length ≤ 1 := by
  have positive : 1 ≤ size.toNat := by
    have enough := le_cacheSizeForBatch computed
    omega
  generalize requests setup claimed = sinks at alike
  constructor
  · intro once
    by_contra large
    push Not at large
    obtain ⟨many, several⟩ := large
    obtain _ | ⟨first, _ | ⟨second, others⟩⟩ := sinks
    · simp at several
    · simp at several
    · have same := alike first List.mem_cons_self
      have same' := alike second (List.mem_cons_of_mem _ List.mem_cons_self)
      subst same same'
      have keepsLength : Inner.KeepsLength
          ({ embed := fun _ => some []
             embedBatch := fun texts => some (texts.map fun _ => []) } :
            Inner φ) := fun texts => ⟨_, rfl, List.length_map _⟩
      exact not_embedsOnce keepsLength positive many others
        (once _ _ (wellFormed_empty _) rfl keepsLength)
  · rintro (few | one) cache inner wellFormed capacity keepsLength
    · exact embedsOnce_of_card_le wellFormed keepsLength (capacity ▸ few) alike
    · obtain _ | ⟨request, _ | ⟨_, _⟩⟩ := sinks
      · exact ⟨[], cache, rfl, .nil⟩
      · obtain ⟨served, answered, _⟩ :=
          embedBatch_meets (capacity ▸ positive) wellFormed inner request
        exact ⟨_, _, embedBatches_cons answered [], List.pairwise_singleton _ _⟩
      · simp at one

end Drained

/-! ## Notes for two sinks -/

/-- Notes are written to two sinks, and claimed as many as by default. -/
def dualSetup : Backfill.Drain.Setup :=
  { limit := 200
    sinks := [⟨.pgEmbedding [notes], true⟩, ⟨.qdrant [notes], true⟩] }

/-- Notes with texts of their own that wait in the store. -/
def waitingNotes (texts : List String) : Backfill.BackfillStore :=
  Backfill.stagedNotes (texts.map fun text => noteRow text text)

def noteKeys (texts : List String) : List (String × String) :=
  texts.map (Prod.mk "notes")

/-- The rows as the worker claims them. -/
def claimedNotes (texts : List String) : List ClaimedRow :=
  ((waitingNotes texts).claimPending (noteKeys texts)).1

/-- One more than the cache for batches of one holds. -/
def seventeenTexts : List String :=
  ["a", "b", "c", "d", "e", "f", "g", "h", "i", "j", "k", "l", "m", "n", "o",
    "p", "q"]

/-- Two notes fit into that cache. -/
theorem drained_embedded_once_notes :
    ({ maxEntries := 16 } : Cache Nat).EmbedsOnce lengths
      (requests dualSetup (claimedNotes ["a", "b"])) :=
  (drained_embedded_once_iff dualSetup (claimedNotes ["a", "b"]) ["a", "b"]
    (by decide) (show cacheSizeForBatch 5 1 = some 16 by decide)).mpr
      (.inl (by decide)) _ _ (wellFormed_empty 16) rfl keepsLength_lengths

/-- With batches of one, which validation accepts, seventeen notes are claimed
at once, and both sinks ask for one of them. -/
theorem drained_embedded_twice :
    (∀ files, batchSizeError ∉
        (loadConfig (onlyBatchSize 1)).validate files) ∧
      cacheSizeForBatch 5
          (loadConfig (onlyBatchSize 1)).embedding.maxBatchSize.toInt64.toUInt64
        = some 16 ∧
      (Transition.run (Backfill.Drain.step dualSetup)
          ({ store := waitingNotes seventeenTexts } : Backfill.Drain.State Nat)
          [.start, .claim (noteKeys seventeenTexts), .rehydrate]).map
            Backfill.Drain.State.phase =
        some (.dispatching (claimedNotes seventeenTexts) 0) ∧
      ¬({ maxEntries := 16 } : Cache Nat).EmbedsOnce lengths
        (requests dualSetup (claimedNotes seventeenTexts)) := by
  refine ⟨batchSizeError_not_mem (by decide), by decide, rfl, ?_⟩
  have same : requests dualSetup (claimedNotes seventeenTexts) =
      [seventeenTexts, seventeenTexts] := by decide +kernel
  rw [same]
  exact not_embedsOnce keepsLength_lengths (by decide) (by decide) []

end Provider
end Walkrie
