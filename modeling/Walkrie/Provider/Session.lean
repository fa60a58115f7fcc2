import Walkrie.Provider.Cache

/-!
# Calls through the cache

The sinks of a process share one cache and call it in any order.  A provider
that is a function of the text cannot be told from the cache in front of it,
and the cache stays in order whatever it is asked for.
-/

namespace Walkrie
namespace Provider

variable {φ : Type}

/-- A call of the provider. -/
inductive Request
  | embed (text : String)
  | embedBatch (texts : List String)
  deriving DecidableEq

namespace Request

def texts : Request → List String
  | .embed text => [text]
  | .embedBatch texts => texts

/-- What the provider behind the cache answers when it is asked itself. -/
def answer (inner : Inner φ) : Request → Option (List (List φ))
  | .embed text => (inner.embed text).map fun vec => [vec]
  | .embedBatch texts => inner.embedBatch texts

/-- The call on the entries of a cache. -/
def effect (maxEntries : Nat) (entries : List (String × List φ))
    (inner : Inner φ) : Request → Effect φ (List (List φ))
  | .embed text =>
      let effect := embedEffect maxEntries entries inner text
      { effect with value := effect.value.map fun vec => [vec] }
  | .embedBatch texts => batchEffect maxEntries entries inner texts

end Request

/-- A call of the cache. -/
def Cache.serve (cache : Cache φ) (inner : Inner φ) :
    Request → Option (Served φ (List (List φ)))
  | .embed text =>
      (cache.embed inner text).map fun served =>
        { served with value := served.value.map fun vec => [vec] }
  | .embedBatch texts => cache.embedBatch inner texts

theorem serve_meets
    {cache : Cache φ}
    (positive : 1 ≤ cache.maxEntries)
    (wellFormed : cache.WellFormed)
    (inner : Inner φ)
    (request : Request) :
    ∃ served, cache.serve inner request = some served ∧
      served.Meets cache.maxEntries
        (request.effect cache.maxEntries cache.entries inner) := by
  cases request with
  | embed text =>
      obtain ⟨served, answered, meets⟩ :=
        embed_meets positive wellFormed inner text
      refine ⟨_, by rw [Cache.serve, answered]; rfl, ?_, meets.asked,
        meets.answered, meets.holds⟩
      simp only [Request.effect, meets.value]
  | embedBatch texts => exact embedBatch_meets positive wellFormed inner texts

/-- The values of several calls, and the cache after them. -/
def Cache.serveAll (inner : Inner φ) (cache : Cache φ) :
    List Request → Option (List (Option (List (List φ))) × Cache φ)
  | [] => some ([], cache)
  | request :: requests =>
      (cache.serve inner request).bind fun served =>
        (served.cache.serveAll inner requests).map fun (values, final) =>
          (served.value :: values, final)

/-! ## The entries after a call -/

section Entries

variable {entries : List (String × List φ)}

theorem mem_touchAll
    (nodup : (Lru.keys entries).Nodup)
    (texts : List String)
    {entry : String × List φ} :
    entry ∈ touchAll texts entries ↔ entry ∈ entries := by
  induction texts generalizing entries with
  | nil => rfl
  | cons text texts inductionHypothesis =>
      rw [touchAll, List.foldl_cons, ← touchAll,
        inductionHypothesis (Lru.nodup_touch nodup text), Lru.mem_touch nodup]

/-- After a store, an entry is one of those stored or was there before. -/
theorem mem_putAll
    {maxEntries : Nat}
    {computed : List (String × List φ)}
    {entry : String × List φ}
    (member : entry ∈ putAll maxEntries computed entries) :
    entry ∈ computed ∨ entry ∈ entries := by
  induction computed generalizing entries with
  | nil => exact .inr member
  | cons first computed inductionHypothesis =>
      rcases inductionHypothesis member with later | before
      · exact .inl (List.mem_cons_of_mem _ later)
      · rcases Lru.mem_of_mem_put before with rfl | ⟨before, _⟩
        · exact .inl List.mem_cons_self
        · exact .inr before

/-- A call leaves the entries there were and the vectors it was answered. -/
theorem mem_effect
    (nodup : (Lru.keys entries).Nodup)
    {maxEntries : Nat}
    {inner : Inner φ}
    {request : Request}
    {entry : String × List φ}
    (member : entry ∈ (request.effect maxEntries entries inner).entries) :
    entry ∈ (request.effect maxEntries entries inner).answered ∨
      entry ∈ entries := by
  cases request with
  | embed text =>
      cases found : entries.lookup text with
      | some cached =>
          simp only [Request.effect, embedEffect, found] at member ⊢
          exact .inr ((Lru.mem_touch nodup).mp member)
      | none =>
          simp only [Request.effect, embedEffect, found] at member ⊢
          exact mem_putAll member
  | embedBatch texts =>
      rcases mem_putAll member with stored | before
      · exact .inl stored
      · exact .inr ((mem_touchAll nodup texts).mp before)

end Entries

/-! ## A function of the text -/

section Transparent

variable {vectorOf : String → List φ}
variable {inner : Inner φ}

/-- The provider computes a function of the text, for several texts one
vector each, in order. -/
structure Inner.Computes (inner : Inner φ) (vectorOf : String → List φ) :
    Prop where
  embed : ∀ text, inner.embed text = some (vectorOf text)
  embedBatch : ∀ texts, inner.embedBatch texts = some (texts.map vectorOf)

/-- Every entry is what the provider would compute. -/
def Genuine (vectorOf : String → List φ) (entries : List (String × List φ)) :
    Prop :=
  ∀ entry ∈ entries, entry.2 = vectorOf entry.1

theorem Genuine.lookup
    {entries : List (String × List φ)}
    (genuine : Genuine vectorOf entries)
    (nodup : (Lru.keys entries).Nodup)
    {text : String}
    {vec : List φ}
    (found : entries.lookup text = some vec) :
    vec = vectorOf text :=
  genuine _ ((Assoc.lookup_eq_some_iff nodup).mp found)

/-- Entries and computed vectors together are the vectors of the texts. -/
theorem fill_eq_map
    {entries : List (String × List φ)}
    (genuine : Genuine vectorOf entries)
    (nodup : (Lru.keys entries).Nodup)
    (texts : List String) :
    fill entries texts ((missing entries texts).map vectorOf) =
      texts.map vectorOf := by
  induction texts with
  | nil => rfl
  | cons text texts inductionHypothesis =>
      rw [fill]
      cases found : entries.lookup text with
      | some cached =>
          simp only [missing_cons_of_some found, inductionHypothesis,
            List.map_cons, genuine.lookup nodup found]
      | none =>
          simp only [missing_cons_of_none found, List.map_cons,
            List.headD_cons, List.tail_cons, inductionHypothesis]

theorem computed?_eq
    (computes : inner.Computes vectorOf)
    (entries : List (String × List φ))
    (texts : List String) :
    computed? entries inner texts =
      some ((missing entries texts).map vectorOf) := by
  unfold computed?
  split <;> rename_i empty
  · rw [List.isEmpty_iff.mp empty]
    rfl
  · rw [computes.embedBatch]
    simp [Option.filter]

/-- A call returns what the provider would, and keeps the entries genuine. -/
theorem effect_of_computes
    (computes : inner.Computes vectorOf)
    {entries : List (String × List φ)}
    (genuine : Genuine vectorOf entries)
    (nodup : (Lru.keys entries).Nodup)
    (maxEntries : Nat)
    (request : Request) :
    (request.effect maxEntries entries inner).value = request.answer inner ∧
      Genuine vectorOf (request.effect maxEntries entries inner).answered := by
  cases request with
  | embed text =>
      cases found : entries.lookup text with
      | some cached =>
          have same := genuine.lookup nodup found
          simp [Request.effect, embedEffect, found, Request.answer,
            computes.embed, Genuine, same]
      | none =>
          simp [Request.effect, embedEffect, found, Request.answer,
            computes.embed, Genuine]
  | embedBatch texts =>
      have computed := computed?_eq computes entries texts
      constructor
      · simp only [Request.effect, batchEffect, computed, Request.answer,
          computes.embedBatch, fill_eq_map genuine nodup]
      · have pairs : (missing entries texts).zip
            ((missing entries texts).map vectorOf) =
              (missing entries texts).map fun text =>
                (text, vectorOf text) := by
          simpa using List.zip_map' (f := id) (g := vectorOf)
            (l := missing entries texts)
        intro entry member
        simp only [Request.effect, batchEffect, computed, Option.getD_some,
          pairs] at member
        obtain ⟨text, _, rfl⟩ := List.mem_map.mp member
        rfl

theorem serveAll_of_genuine
    (computes : inner.Computes vectorOf)
    (requests : List Request)
    (cache : Cache φ)
    (positive : 1 ≤ cache.maxEntries)
    (wellFormed : cache.WellFormed)
    (genuine : Genuine vectorOf cache.entries) :
    ∃ final : Cache φ,
      cache.serveAll inner requests =
          some (requests.map (Request.answer inner), final) ∧
        final.WellFormed ∧ final.maxEntries = cache.maxEntries := by
  induction requests generalizing cache with
  | nil => exact ⟨cache, rfl, wellFormed, rfl⟩
  | cons request requests inductionHypothesis =>
      obtain ⟨served, answered, meets⟩ :=
        serve_meets positive wellFormed inner request
      obtain ⟨value, stored⟩ := effect_of_computes computes genuine
        wellFormed.nodup cache.maxEntries request
      have kept : Genuine vectorOf served.cache.entries := by
        rw [meets.holds.entries]
        intro entry member
        rcases mem_effect wellFormed.nodup member with new | old
        · exact stored entry new
        · exact genuine entry old
      obtain ⟨final, rest, ordered, bound⟩ := inductionHypothesis served.cache
        (meets.holds.maxEntries ▸ positive) meets.holds.wellFormed kept
      refine ⟨final, ?_, ordered, bound.trans meets.holds.maxEntries⟩
      rw [Cache.serveAll, answered, Option.bind_some, rest, meets.value, value]
      rfl

theorem wellFormed_empty
    (maxEntries : Nat) :
    Cache.WellFormed ({ maxEntries } : Cache φ) where
  index := by
    intro text identity
    constructor
    · intro found
      cases found
    · rintro ⟨node, member, _⟩
      cases member
  texts := List.nodup_nil
  identities := List.nodup_nil
  allocated := by
    intro node member
    cases member
  bounded := Nat.zero_le _

/-- The cache returns, call by call, what the provider behind it would, and
stays in order. -/
theorem serveAll_of_computes
    {maxEntries : Nat}
    (positive : 1 ≤ maxEntries)
    (computes : inner.Computes vectorOf)
    (requests : List Request) :
    ∃ final : Cache φ,
      Cache.serveAll inner { maxEntries } requests =
          some (requests.map (Request.answer inner), final) ∧
        final.WellFormed ∧ final.maxEntries = maxEntries :=
  serveAll_of_genuine computes requests { maxEntries } positive
    (wellFormed_empty maxEntries) (by
      intro entry member
      cases member)

end Transparent

/-- Texts by their length. -/
def lengths : Inner Nat :=
  { embed := fun text => some [text.length]
    embedBatch := fun texts => some (texts.map fun text => [text.length]) }

/-- Two entries and three texts, one of them twice. -/
theorem serveAll_lengths :
    ∃ final : Cache Nat,
      Cache.serveAll lengths { maxEntries := 2 }
          [.embedBatch ["a", "bb", "a", "ccc"], .embed "a",
            .embedBatch ["bb", "ccc"]] =
          some ([some [[1], [2], [1], [3]], some [[1]], some [[2], [3]]],
            final) ∧
        final.WellFormed ∧ final.maxEntries = 2 := by
  have computes : lengths.Computes fun text => [text.length] :=
    ⟨fun _ => rfl, fun _ => rfl⟩
  exact serveAll_of_computes (by decide) computes
    [.embedBatch ["a", "bb", "a", "ccc"], .embed "a",
      .embedBatch ["bb", "ccc"]]

end Provider
end Walkrie
