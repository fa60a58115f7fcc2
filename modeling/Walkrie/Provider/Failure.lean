import Walkrie.Library.Transition
import Walkrie.Provider.Session

/-!
# Failed embeddings

A provider reports a text it could not embed by an empty vector.  `put` stores
that vector like any other, so the text is served empty until enough other
texts have been used to evict it.  The cache holds the texts used last with the
vectors computed last, which tells exactly when a failure is tried again.
-/

namespace Walkrie
namespace Provider

open Transition

variable {φ : Type}

/-- A call, with the provider behind the cache as it is during the call. -/
structure Call (φ : Type) where
  request : Request
  inner : Inner φ

/-- The cache, the vectors the provider behind it has computed, the last one
first, and the texts in the order of their last use. -/
structure Session (φ : Type) where
  cache : Cache φ
  answers : List (String × List φ) := []
  recent : List String := []

/-- A call uses the texts it is served from the cache and those it is
answered. -/
def Session.step (session : Session φ) (call : Call φ) :
    Option (Session φ) :=
  (session.cache.serve call.inner call.request).map fun served =>
    let hits := call.request.texts.filter fun text => text ∉ served.asked
    { cache := served.cache
      answers := served.answered.reverse ++ session.answers
      recent := (hits ++ served.answered.map Prod.fst).foldl
        (fun recent text => Lru.use text recent) session.recent }

def launch (maxEntries : Nat) : Session φ :=
  { cache := { maxEntries } }

/-- A call asks again for every text that was empty the last time it was
computed, and returns none empty that it was not answered empty. -/
structure Retried (session : Session φ) (call : Call φ)
    (served : Served φ (List (List φ))) : Prop where
  asked : ∀ text ∈ call.request.texts,
    session.answers.lookup text = some [] → text ∈ served.asked
  failed : ∀ vectors, served.value = some vectors →
    ∀ entry ∈ call.request.texts.zip vectors,
      entry.2 = [] → entry ∈ served.answered

/-- No failure is remembered. -/
def Retries (maxEntries : Nat) (calls : List (Call φ)) : Prop :=
  ∀ before call after, calls = before ++ call :: after →
    ∃ session served,
      run Session.step (launch maxEntries) before = some session ∧
        session.cache.serve call.inner call.request = some served ∧
        Retried session call served

/-- Whenever a text is requested that was empty the last time it was
computed, as many other texts as the cache holds have been used since. -/
def Displaced (maxEntries : Nat) (calls : List (Call φ)) : Prop :=
  ∀ before call after, calls = before ++ call :: after →
    ∀ session, run Session.step (launch maxEntries) before = some session →
      ∀ text ∈ call.request.texts, session.answers.lookup text = some [] →
        text ∉ session.recent.take maxEntries

/-! ## What the cache holds -/

/-- The cache holds the texts used last, each with the vector computed
last. -/
structure Tracks (maxEntries : Nat) (entries : List (String × List φ))
    (answers : List (String × List φ)) (recent : List String) : Prop where
  distinct : recent.Nodup
  keys : Lru.keys entries = recent.take maxEntries
  latest : ∀ entry ∈ entries, answers.lookup entry.1 = some entry.2

section Tracking

variable {maxEntries : Nat}
variable {entries answers : List (String × List φ)}
variable {recent : List String}

theorem Tracks.nodup
    (tracks : Tracks maxEntries entries answers recent) :
    (Lru.keys entries).Nodup := by
  rw [tracks.keys]
  exact tracks.distinct.sublist (List.take_sublist _ _)

/-- A text that is there is used. -/
theorem Tracks.touch
    (tracks : Tracks maxEntries entries answers recent)
    {text : String}
    (member : text ∈ Lru.keys entries) :
    Tracks maxEntries (Lru.touch text entries) answers
      (Lru.use text recent) where
  distinct := Lru.nodup_use tracks.distinct
  keys := by
    have length := Lru.length_use_of_mem tracks.nodup member
    rw [Lru.keys_touch_of_mem member, ← Lru.take_use maxEntries tracks.distinct,
      ← tracks.keys, List.take_of_length_le]
    rw [length, tracks.keys]
    exact List.length_take_le _ _
  latest := fun entry among =>
    tracks.latest entry ((Lru.mem_touch tracks.nodup).mp among)

/-- A vector that was computed is stored. -/
theorem Tracks.put
    (tracks : Tracks maxEntries entries answers recent)
    (text : String)
    (vec : List φ) :
    Tracks maxEntries (Lru.put maxEntries text vec entries)
      ((text, vec) :: answers) (Lru.use text recent) where
  distinct := Lru.nodup_use tracks.distinct
  keys := by
    rw [Lru.keys_put, tracks.keys, Lru.take_use maxEntries tracks.distinct]
  latest := by
    intro entry member
    rcases Lru.mem_of_mem_put member with rfl | ⟨among, other⟩
    · simp
    · have different : (entry.1 == text) = false :=
        beq_eq_false_iff_ne.mpr other
      rw [List.lookup_cons, different]
      exact tracks.latest entry among

theorem Tracks.touchAll
    (tracks : Tracks maxEntries entries answers recent)
    (texts : List String) :
    Tracks maxEntries (touchAll texts entries) answers
      ((texts.filter fun text => text ∈ Lru.keys entries).foldl
        (fun recent text => Lru.use text recent) recent) := by
  induction texts generalizing entries recent with
  | nil => exact tracks
  | cons text texts inductionHypothesis =>
      by_cases member : text ∈ Lru.keys entries
      · have kept : ∀ other, other ∈ Lru.keys (Lru.touch text entries) ↔
            other ∈ Lru.keys entries := by
          intro other
          rw [Lru.keys_touch_of_mem member, Lru.mem_use]
          exact ⟨fun used => used.elim (· ▸ member) id, .inr⟩
        have later := inductionHypothesis (tracks.touch member)
        simp only [kept] at later
        rw [List.filter_cons_of_pos (by simpa using member)]
        exact later
      · rw [List.filter_cons_of_neg (by simpa using member)]
        have same := Lru.touch_of_not_mem member
        rw [Provider.touchAll, List.foldl_cons, same]
        exact inductionHypothesis tracks

theorem Tracks.putAll
    (tracks : Tracks maxEntries entries answers recent)
    (computed : List (String × List φ)) :
    Tracks maxEntries (putAll maxEntries computed entries)
      (computed.reverse ++ answers)
      ((computed.map Prod.fst).foldl
        (fun recent text => Lru.use text recent) recent) := by
  induction computed generalizing entries answers recent with
  | nil => exact tracks
  | cons entry computed inductionHypothesis =>
      have later := inductionHypothesis (tracks.put entry.1 entry.2)
      rw [List.reverse_cons, List.append_assoc]
      exact later

end Tracking

/-! ## What a call asks for and returns -/

section Calls

variable {maxEntries : Nat}
variable {entries answers : List (String × List φ)}
variable {recent : List String}
variable {inner : Inner φ}
variable {request : Request}

theorem mem_missing
    {texts : List String}
    {text : String} :
    text ∈ missing entries texts ↔
      text ∈ texts ∧ text ∉ Lru.keys entries := by
  rw [missing, List.mem_filter, Option.isNone_iff_eq_none,
    Assoc.lookup_eq_none_iff, Lru.keys]

/-- A call asks for the texts without an entry. -/
theorem asked_effect :
    (request.effect maxEntries entries inner).asked =
      missing entries request.texts := by
  cases request with
  | embed text =>
      cases found : entries.lookup text <;>
        simp [Request.effect, embedEffect, Request.texts, missing, found]
  | embedBatch texts => rfl

/-- A call looks its texts up and stores what it is answered. -/
theorem entries_effect :
    (request.effect maxEntries entries inner).entries =
      putAll maxEntries (request.effect maxEntries entries inner).answered
        (touchAll request.texts entries) := by
  cases request with
  | embed text =>
      cases found : entries.lookup text with
      | some cached =>
          simp [Request.effect, embedEffect, Request.texts, found, touchAll,
            putAll]
      | none =>
          have untouched := Lru.touch_of_not_mem
            (Assoc.lookup_eq_none_iff.mp found)
          simp [Request.effect, embedEffect, Request.texts, found, touchAll,
            untouched]
  | embedBatch texts => rfl

theorem Tracks.effect
    (tracks : Tracks maxEntries entries answers recent)
    (inner : Inner φ)
    (request : Request) :
    Tracks maxEntries (request.effect maxEntries entries inner).entries
      ((request.effect maxEntries entries inner).answered.reverse ++ answers)
      ((request.texts.filter (fun text =>
            text ∉ (request.effect maxEntries entries inner).asked) ++
          (request.effect maxEntries entries inner).answered.map
            Prod.fst).foldl (fun recent text => Lru.use text recent)
        recent) := by
  have hits : request.texts.filter (fun text =>
      text ∉ (request.effect maxEntries entries inner).asked) =
        request.texts.filter fun text => text ∈ Lru.keys entries := by
    refine List.filter_congr fun text member => ?_
    rw [asked_effect, decide_eq_decide, mem_missing]
    simp [member]
  rw [hits, entries_effect, List.foldl_append]
  exact (tracks.touchAll request.texts).putAll _

/-- The vectors filled in are entries or were computed. -/
theorem mem_zip_fill
    {texts : List String}
    {computed : List (List φ)}
    (whole : computed.length = (missing entries texts).length)
    {entry : String × List φ}
    (member : entry ∈ texts.zip (fill entries texts computed)) :
    entries.lookup entry.1 = some entry.2 ∨
      entry ∈ (missing entries texts).zip computed := by
  induction texts generalizing computed with
  | nil => cases member
  | cons text texts inductionHypothesis =>
      cases found : entries.lookup text with
      | some cached =>
          rw [missing_cons_of_some found] at whole ⊢
          rw [fill, found, List.zip_cons_cons] at member
          rcases List.mem_cons.mp member with rfl | member
          · exact .inl found
          · exact inductionHypothesis whole member
      | none =>
          rw [missing_cons_of_none found] at whole ⊢
          obtain ⟨vec, later, rfl⟩ :=
            List.exists_cons_of_length_eq_add_one whole
          rw [fill, found] at member
          simp only [List.headD_cons, List.tail_cons, List.zip_cons_cons]
            at member ⊢
          rcases List.mem_cons.mp member with rfl | member
          · exact .inr List.mem_cons_self
          · exact (inductionHypothesis (by simpa using whole) member).imp_right
              (List.mem_cons_of_mem _)

theorem length_computed?
    {texts : List String}
    {computed : List (List φ)}
    (computes : computed? entries inner texts = some computed) :
    computed.length = (missing entries texts).length := by
  unfold computed? at computes
  split at computes <;> rename_i empty
  · cases computes
    exact (congrArg List.length (List.isEmpty_iff.mp empty)).symm
  · exact of_decide_eq_true (Option.filter_eq_some_iff.mp computes).2

/-- A text is returned as its entry or as the call was answered. -/
theorem mem_value_effect
    {vectors : List (List φ)}
    (returned : (request.effect maxEntries entries inner).value = some vectors)
    {entry : String × List φ}
    (member : entry ∈ request.texts.zip vectors) :
    entries.lookup entry.1 = some entry.2 ∨
      entry ∈ (request.effect maxEntries entries inner).answered := by
  cases request with
  | embed text =>
      cases found : entries.lookup text with
      | some cached =>
          simp only [Request.effect, embedEffect, found, Option.map_some,
            Option.some.injEq] at returned
          subst returned
          rw [Request.texts, List.zip_cons_cons, List.zip_nil_left,
            List.mem_singleton] at member
          subst member
          exact .inl found
      | none =>
          simp only [Request.effect, embedEffect, found] at returned ⊢
          obtain ⟨vec, answer, rfl⟩ := Option.map_eq_some_iff.mp returned
          rw [Request.texts, List.zip_cons_cons, List.zip_nil_left,
            List.mem_singleton] at member
          simp [answer, member]
  | embedBatch texts =>
      simp only [Request.effect, batchEffect] at returned ⊢
      cases computed : computed? entries inner texts with
      | none =>
          rw [computed] at returned
          obtain ⟨_, _, rfl⟩ := Option.map_eq_some_iff.mp returned
          simp [Request.texts] at member
      | some vectors =>
          rw [computed] at returned
          cases returned
          exact mem_zip_fill (length_computed? computed) member

end Calls

/-! ## Whole runs -/

section Runs

variable {maxEntries : Nat}

/-- The cache of a session is in order and holds what was used last. -/
structure Session.Sound (maxEntries : Nat) (session : Session φ) : Prop where
  wellFormed : session.cache.WellFormed
  capacity : session.cache.maxEntries = maxEntries
  tracks : Tracks maxEntries session.cache.entries session.answers
    session.recent

theorem sound_launch
    (maxEntries : Nat) :
    (launch maxEntries : Session φ).Sound maxEntries where
  wellFormed := wellFormed_empty maxEntries
  capacity := rfl
  tracks := ⟨List.nodup_nil, List.take_nil.symm, by
    intro entry member
    cases member⟩

theorem Session.Sound.serve
    {session : Session φ}
    (positive : 1 ≤ maxEntries)
    (sound : session.Sound maxEntries)
    (call : Call φ) :
    ∃ served, session.cache.serve call.inner call.request = some served ∧
      served.Meets maxEntries
        (call.request.effect maxEntries session.cache.entries call.inner) := by
  have meets := serve_meets (sound.capacity ▸ positive) sound.wellFormed
    call.inner call.request
  rw [sound.capacity] at meets
  exact meets

theorem Session.Sound.step
    {session : Session φ}
    (positive : 1 ≤ maxEntries)
    (sound : session.Sound maxEntries)
    (call : Call φ) :
    ∃ next, session.step call = some next ∧ next.Sound maxEntries := by
  obtain ⟨served, answered, meets⟩ := sound.serve positive call
  refine ⟨_, by rw [Session.step, answered]; rfl, meets.holds.wellFormed,
    meets.holds.maxEntries, ?_⟩
  simp only [meets.holds.entries, meets.asked, meets.answered]
  exact sound.tracks.effect call.inner call.request

theorem exists_run
    (positive : 1 ≤ maxEntries)
    (calls : List (Call φ))
    {session : Session φ}
    (sound : session.Sound maxEntries) :
    ∃ final, run Session.step session calls = some final ∧
      final.Sound maxEntries := by
  induction calls generalizing session with
  | nil => exact ⟨session, rfl, sound⟩
  | cons call calls inductionHypothesis =>
      obtain ⟨next, taken, kept⟩ := sound.step positive call
      obtain ⟨final, executed, ends⟩ := inductionHypothesis kept
      refine ⟨final, ?_, ends⟩
      rw [run, taken]
      exact executed

/-- A call tries every failure again exactly when none of them is still in the
cache. -/
theorem retried_iff
    {session : Session φ}
    (sound : session.Sound maxEntries)
    {call : Call φ}
    {served : Served φ (List (List φ))}
    (meets : served.Meets maxEntries
      (call.request.effect maxEntries session.cache.entries call.inner)) :
    Retried session call served ↔
      ∀ text ∈ call.request.texts, session.answers.lookup text = some [] →
        text ∉ session.recent.take maxEntries := by
  have asked : ∀ text ∈ call.request.texts, text ∈ served.asked ↔
      text ∉ session.recent.take maxEntries := by
    intro text member
    rw [meets.asked, asked_effect, mem_missing, sound.tracks.keys,
      and_iff_right member]
  constructor
  · intro retried text member empty
    exact (asked text member).mp (retried.asked text member empty)
  · intro displaced
    refine ⟨fun text member empty =>
      (asked text member).mpr (displaced text member empty), ?_⟩
    intro vectors returned entry member empty
    rw [meets.value] at returned
    rw [meets.answered]
    refine (mem_value_effect returned member).resolve_left fun found => ?_
    -- An entry that is empty was computed empty, and is in the cache.
    have nodup := sound.tracks.nodup
    have present := (Assoc.lookup_eq_some_iff nodup).mp found
    have latest := sound.tracks.latest _ present
    rw [empty] at latest
    refine displaced entry.1 (List.of_mem_zip member).1 latest ?_
    rw [← sound.tracks.keys]
    exact List.mem_map_of_mem present

/-- A failure is forgotten exactly when, each time the text is requested
again, as many other texts as the cache holds have been used since. -/
theorem retries_iff
    (positive : 1 ≤ maxEntries)
    (calls : List (Call φ)) :
    Retries maxEntries calls ↔ Displaced maxEntries calls := by
  constructor
  · intro retries before call after parts session executed
    obtain ⟨session', served, executed', answered, retried⟩ :=
      retries before call after parts
    cases executed.symm.trans executed'
    obtain ⟨final, reached, sound⟩ :=
      exists_run positive before (sound_launch maxEntries)
    cases executed.symm.trans reached
    obtain ⟨served', answered', meets⟩ := sound.serve positive call
    cases answered.symm.trans answered'
    exact (retried_iff sound meets).mp retried
  · intro displaced before call after parts
    obtain ⟨session, executed, sound⟩ :=
      exists_run positive before (sound_launch maxEntries)
    obtain ⟨served, answered, meets⟩ := sound.serve positive call
    exact ⟨session, served, executed, answered, (retried_iff sound meets).mpr
      (displaced before call after parts session executed)⟩

end Runs

/-- A provider that fails on every text. -/
def failing : Inner Nat :=
  { embed := fun _ => some []
    embedBatch := fun texts => some (texts.map fun _ => []) }

/-- Two other texts are used before the one that failed is requested again. -/
def displacing : List (Call Nat) :=
  [⟨.embed "a", failing⟩, ⟨.embedBatch ["bb", "ccc"], lengths⟩,
    ⟨.embed "a", lengths⟩]

theorem retries_displacing :
    Retries 2 displacing ∧ Displaced 2 displacing := by
  have displaced : Displaced 2 displacing := by
    intro before call after parts session executed text member empty
    rcases before with _ | ⟨_, _ | ⟨_, _ | ⟨_, later⟩⟩⟩
    · cases parts
      cases executed
      cases empty
    · cases parts
      cases executed
      rcases List.mem_cons.mp member with rfl | member
      · cases empty
      · rw [List.mem_singleton.mp member] at empty
        cases empty
    · cases parts
      cases executed
      rw [List.mem_singleton.mp member]
      decide
    · have length := congrArg List.length parts
      simp [displacing] at length
  exact ⟨(retries_iff (by decide) displacing).mpr displaced, displaced⟩

/-- A text that failed once is returned empty although it would not fail
again. -/
theorem not_retries_failing :
    ¬Retries 64 [⟨.embed "a", failing⟩, ⟨.embed "a", lengths⟩] := by
  intro retries
  obtain ⟨session, served, executed, answered, retried⟩ :=
    retries [⟨.embed "a", failing⟩] ⟨.embed "a", lengths⟩ [] rfl
  cases executed
  cases answered
  have asked := retried.asked "a" List.mem_cons_self rfl
  cases asked

end Provider
end Walkrie
