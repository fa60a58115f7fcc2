import Walkrie.Library.Assoc
import Walkrie.Config.App

/-!
# Vectors from the OpenAI service

`OpenAIProvider::embed_batch` sends all texts in one request, tries it three
times at most, and puts each vector of the answer where its index says.  What
the answer leaves out stays empty, and so does everything when no attempt is
answered.  The body of the request is written before the first attempt, outside
of any `try`: if `dump()` throws, so does the call.

The JSON library is a parameter.  Of its reading nothing is assumed; of its
writing, where it matters, that JSON is UTF-8 and other texts are refused.
-/

namespace Walkrie
namespace Provider

variable {J φ : Type}

/-- `request_body`. -/
structure RequestBody where
  model : String
  input : List String
  dimensions : Option Int32

/-- The strings of the body are UTF-8. -/
def RequestBody.IsUtf8 (body : RequestBody) : Prop :=
  ∀ text ∈ body.model :: body.input, ValidUtf8 text

instance (body : RequestBody) : Decidable body.IsUtf8 :=
  List.decidableBAll ValidUtf8 _

/-- What is used of the JSON library, with its values.  An exception is
`none`. -/
structure JsonLibrary (J φ : Type) where
  /-- `dump()`. -/
  dump : RequestBody → Option String
  /-- `json::parse`. -/
  parse : String → Option J
  /-- `at`. -/
  field : String → J → Option J
  /-- What a loop over a value runs over. -/
  elements : J → List J
  /-- `get<size_t>`. -/
  toSize : J → Option Nat
  /-- `get<std::vector<float>>`. -/
  toVector : J → Option (List φ)

namespace JsonLibrary

/-- `dump()` throws exactly when it meets a string that is not UTF-8. -/
def DumpsUtf8 (json : JsonLibrary J φ) : Prop :=
  ∀ body, json.dump body = none ↔ ¬body.IsUtf8

variable (json : JsonLibrary J φ)

/-- The index of an item. -/
def index? (item : J) : Option Nat :=
  (json.field "index" item).bind json.toSize

/-- The embedding of an item. -/
def embedding? (item : J) : Option (List φ) :=
  (json.field "embedding" item).bind json.toVector

/-- An item of the answer that has an index and an embedding. -/
def item? (item : J) : Option (Nat × List φ) :=
  (json.index? item).bind fun idx =>
    (json.embedding? item).map fun embedding => (idx, embedding)

end JsonLibrary

structure HttpResponse where
  statusCode : Int := 0
  body : String := ""
  curlOk : Bool := false

namespace HttpResponse

def succeeded (resp : HttpResponse) : Bool :=
  resp.curlOk && resp.statusCode = 200

/-- `is_retryable`. -/
def isRetryable (resp : HttpResponse) : Bool :=
  if !resp.curlOk then true
  else if resp.statusCode = 429 then true
  else decide (500 ≤ resp.statusCode)

/-- The answer has well-formed items, which are these. -/
def Carries (json : JsonLibrary J φ) (resp : HttpResponse)
    (items : List (Nat × List φ)) : Prop :=
  ∃ data, (json.parse resp.body).bind (json.field "data") = some data ∧
    (json.elements data).map json.item? = items.map some

end HttpResponse

def kMaxRetries : Nat := 2

/-- The arguments of `post_json`. -/
structure PostJson where
  url : String
  body : String
  headers : List String

structure OpenAIProvider where
  apiKey : String
  model : String
  baseUrl : String := "https://api.openai.com/v1/embeddings"
  dimensions : Int32
  /-- Whether `init` has created the client. -/
  http : Bool := false

/-- The loop over the attempts: the answer it ends with, or `none` when it
gives up.  The last attempt is not followed by another. -/
def attempts (respond : Nat → HttpResponse) :
    Nat → Nat → Option HttpResponse
  | attempt, 0 =>
      if (respond attempt).succeeded then some (respond attempt) else none
  | attempt, remaining + 1 =>
      if (respond attempt).succeeded then some (respond attempt)
      else if !(respond attempt).isRetryable then none
      else attempts respond (attempt + 1) remaining

/-- The loop over the items.  An exception ends it and is caught, with the
vectors that have been put in place so far. -/
def scatter (json : JsonLibrary J φ) (results : List (List φ)) :
    List J → List (List φ)
  | [] => results
  | item :: items =>
      match json.index? item with
      | none => results
      | some idx =>
          if idx < results.length then
            match json.embedding? item with
            | none => results
            | some embedding => scatter json (results.set idx embedding) items
          else scatter json results items

/-- The `try` block. -/
def readResponse (json : JsonLibrary J φ) (results : List (List φ))
    (resp : HttpResponse) : List (List φ) :=
  match (json.parse resp.body).bind (json.field "data") with
  | none => results
  | some data => scatter json results (json.elements data)

namespace OpenAIProvider

/-- The constructor. -/
def ofConfig (cfg : Config.EmbeddingConfig) : OpenAIProvider :=
  { apiKey := cfg.apiKey
    model := if cfg.model.isEmpty then "text-embedding-3-small" else cfg.model
    dimensions := cfg.dimensions }

/-- `init`. -/
def init (provider : OpenAIProvider) : Except String OpenAIProvider :=
  if provider.apiKey.isEmpty then
    .error ("OpenAIProvider: no API key configured. " ++
      "Set 'api_key' in [embedding] config.")
  else .ok { provider with http := true }

def requestBody (provider : OpenAIProvider) (texts : List String) :
    RequestBody :=
  { model := provider.model
    input := texts
    dimensions :=
      if 0 < provider.dimensions then some provider.dimensions else none }

def request (provider : OpenAIProvider) (bodyStr : String) : PostJson :=
  { url := provider.baseUrl
    body := bodyStr
    headers := ["Authorization: Bearer " ++ provider.apiKey] }

/-- `embed_batch`, for what each attempt is answered; an exception is
`none`. -/
def embedBatch (json : JsonLibrary J φ) (provider : OpenAIProvider)
    (postJson : Nat → PostJson → HttpResponse) (texts : List String) :
    Option (List (List φ)) :=
  let results := List.replicate texts.length []
  if !provider.http then some results
  else if texts.isEmpty then some []
  else
    match json.dump (provider.requestBody texts) with
    | none => none
    | some bodyStr =>
        match attempts
            (fun attempt => postJson attempt (provider.request bodyStr))
            0 kMaxRetries with
        | none => some results
        | some resp => some (readResponse json results resp)

/-! ## Aligned vectors -/

/-- An attempt succeeds, and those before it failed in a way that is worth
another one. -/
def Receives (json : JsonLibrary J φ) (provider : OpenAIProvider)
    (postJson : Nat → PostJson → HttpResponse) (texts : List String)
    (resp : HttpResponse) : Prop :=
  provider.http = true ∧ texts ≠ [] ∧
    ∃ bodyStr, json.dump (provider.requestBody texts) = some bodyStr ∧
      ∃ attempt ≤ kMaxRetries,
        postJson attempt (provider.request bodyStr) = resp ∧
          resp.succeeded = true ∧
          ∀ earlier < attempt,
            (postJson earlier (provider.request bodyStr)).succeeded = false ∧
              (postJson earlier (provider.request bodyStr)).isRetryable = true

/-- All attempts fail, or one fails in a way that is not worth another. -/
def GivesUp (json : JsonLibrary J φ) (provider : OpenAIProvider)
    (postJson : Nat → PostJson → HttpResponse) (texts : List String) :
    Prop :=
  ∃ bodyStr, json.dump (provider.requestBody texts) = some bodyStr ∧
    ∃ attempt ≤ kMaxRetries,
      (∀ earlier ≤ attempt,
        (postJson earlier (provider.request bodyStr)).succeeded = false) ∧
        (attempt = kMaxRetries ∨
          (postJson attempt (provider.request bodyStr)).isRetryable = false)

/-- The items whose index is that of a text. -/
def inRange (texts : List String) (items : List (Nat × List φ)) :
    List (Nat × List φ) :=
  items.filter fun item => item.1 < texts.length

/-- However the attempts are answered, there is one vector a text; it is the
one with the index of the text, in whatever order the items come, and empty if
there is none. -/
structure Aligned (json : JsonLibrary J φ) (provider : OpenAIProvider)
    (texts : List String) : Prop where
  returned : ∀ postJson : Nat → PostJson → HttpResponse,
    ∃ results, provider.embedBatch json postJson texts = some results ∧
      results.length = texts.length
  placed : ∀ (postJson : Nat → PostJson → HttpResponse) resp items results,
    provider.Receives json postJson texts resp → resp.Carries json items →
    (items.map Prod.fst).Nodup →
    provider.embedBatch json postJson texts = some results →
      (∀ item ∈ items, item.1 < texts.length →
        results[item.1]? = some item.2) ∧
      ∀ position < texts.length, position ∉ items.map Prod.fst →
        results[position]? = some []
  permuted : ∀ (postJson postJson' : Nat → PostJson → HttpResponse)
      resp resp' items items',
    provider.Receives json postJson texts resp → resp.Carries json items →
    provider.Receives json postJson' texts resp' →
    resp'.Carries json items' →
    (items.map Prod.fst).Nodup →
    (inRange texts items).Perm (inRange texts items') →
      provider.embedBatch json postJson texts =
        provider.embedBatch json postJson' texts
  failed : ∀ postJson : Nat → PostJson → HttpResponse,
    provider.GivesUp json postJson texts →
      provider.embedBatch json postJson texts =
        some (List.replicate texts.length [])

end OpenAIProvider

/-! ## The loops -/

section Loops

variable {respond : Nat → HttpResponse}
variable {json : JsonLibrary J φ}

/-- The loop ends with the first attempt that succeeds. -/
theorem attempts_of_succeeded
    {attempt remaining offset : Nat}
    (within : offset ≤ remaining)
    (succeeds : (respond (attempt + offset)).succeeded = true)
    (before : ∀ earlier < offset,
      (respond (attempt + earlier)).succeeded = false ∧
        (respond (attempt + earlier)).isRetryable = true) :
    attempts respond attempt remaining = some (respond (attempt + offset)) := by
  induction remaining generalizing attempt offset with
  | zero =>
      rw [Nat.le_zero.mp within, Nat.add_zero] at succeeds ⊢
      rw [attempts, if_pos succeeds]
  | succ remaining inductionHypothesis =>
      rw [attempts]
      cases offset with
      | zero =>
          rw [Nat.add_zero] at succeeds
          rw [if_pos succeeds, Nat.add_zero]
      | succ offset =>
          obtain ⟨failed, retryable⟩ := before 0 offset.succ_pos
          rw [if_neg (by simpa using failed), if_neg (by simpa using retryable)]
          have shift : ∀ later, attempt + (later + 1) = attempt + 1 + later :=
            fun later => by omega
          rw [shift offset] at succeeds ⊢
          refine inductionHypothesis (Nat.le_of_succ_le_succ within) succeeds ?_
          intro earlier below
          rw [← shift]
          exact before (earlier + 1) (Nat.succ_lt_succ below)

/-- The loop gives up when an attempt fails and no other follows. -/
theorem attempts_of_failed
    {attempt remaining offset : Nat}
    (within : offset ≤ remaining)
    (fails : ∀ earlier ≤ offset,
      (respond (attempt + earlier)).succeeded = false)
    (last : offset = remaining ∨
      (respond (attempt + offset)).isRetryable = false) :
    attempts respond attempt remaining = none := by
  induction remaining generalizing attempt offset with
  | zero =>
      have failed := fails 0 (Nat.zero_le _)
      rw [attempts, if_neg (by simpa using failed)]
  | succ remaining inductionHypothesis =>
      have failed := fails 0 (Nat.zero_le _)
      rw [attempts, if_neg (by simpa using failed)]
      split <;> rename_i retryable
      · rfl
      · cases offset with
        | zero =>
            rcases last with impossible | final
            · cases impossible
            · exact absurd final (by simpa using retryable)
        | succ offset =>
            have shift : ∀ later, attempt + (later + 1) = attempt + 1 + later :=
              fun later => by omega
            rw [shift, Nat.succ_inj] at last
            refine inductionHypothesis (Nat.le_of_succ_le_succ within) ?_ last
            intro earlier below
            rw [← shift]
            exact fails (earlier + 1) (Nat.succ_le_succ below)

theorem length_scatter
    (data : List J)
    (results : List (List φ)) :
    (scatter json results data).length = results.length := by
  fun_induction scatter json results data with
  | case1 => rfl
  | case2 => rfl
  | case3 => rfl
  | case4 results item items idx index inside vec embedding rest =>
      rw [rest, List.length_set]
  | case5 results item items idx index outside rest => exact rest

theorem length_readResponse
    (results : List (List φ))
    (resp : HttpResponse) :
    (readResponse json results resp).length = results.length := by
  unfold readResponse
  split
  · rfl
  · exact length_scatter _ results

/-- Well-formed items are all put in place, and an index that is too large
puts nothing. -/
theorem scatter_eq_foldl
    {data : List J}
    {items : List (Nat × List φ)}
    (wellFormed : data.map json.item? = items.map some)
    (results : List (List φ)) :
    scatter json results data =
      items.foldl (fun results item => results.set item.1 item.2) results := by
  induction data generalizing items results with
  | nil =>
      rw [List.map_nil, eq_comm, List.map_eq_nil_iff] at wellFormed
      subst wellFormed
      rfl
  | cons first data inductionHypothesis =>
      cases items with
      | nil => cases wellFormed
      | cons item items =>
          rw [List.map_cons, List.map_cons, List.cons.injEq] at wellFormed
          obtain ⟨idx, index, vector⟩ := Option.bind_eq_some_iff.mp wellFormed.1
          obtain ⟨embedding, embedded, rfl⟩ := Option.map_eq_some_iff.mp vector
          rw [scatter, index, List.foldl_cons]
          simp only [embedded]
          rw [← inductionHypothesis wellFormed.2]
          split <;> rename_i inside
          · rfl
          · rw [List.set_eq_of_length_le (Nat.le_of_not_lt inside)]

theorem readResponse_of_carries
    {resp : HttpResponse}
    {items : List (Nat × List φ)}
    (carries : resp.Carries json items)
    (results : List (List φ)) :
    readResponse json results resp =
      items.foldl (fun results item => results.set item.1 item.2) results := by
  obtain ⟨data, found, wellFormed⟩ := carries
  rw [readResponse, found]
  exact scatter_eq_foldl wellFormed results

end Loops

/-! ## The call -/

namespace OpenAIProvider

section Call

variable {json : JsonLibrary J φ}
variable {provider : OpenAIProvider}
variable {postJson : Nat → PostJson → HttpResponse}
variable {texts : List String}
variable {resp : HttpResponse}
variable {items : List (Nat × List φ)}

theorem length_embedBatch
    {results : List (List φ)}
    (returned : provider.embedBatch json postJson texts = some results) :
    results.length = texts.length := by
  simp only [embedBatch] at returned
  split_ifs at returned with down empty
  · cases returned
    exact List.length_replicate
  · cases returned
    exact (List.length_eq_zero_iff.mpr (List.isEmpty_iff.mp empty)).symm
  · split at returned
    · cases returned
    · split at returned <;> cases returned
      · exact List.length_replicate
      · rw [length_readResponse, List.length_replicate]

/-- The call throws when it has something to send that `dump()` refuses. -/
theorem embedBatch_eq_none_iff :
    provider.embedBatch json postJson texts = none ↔
      provider.http = true ∧ texts ≠ [] ∧
        json.dump (provider.requestBody texts) = none := by
  simp only [embedBatch]
  split_ifs with down empty
  · simp [by simpa using down]
  · simp [List.isEmpty_iff.mp empty]
  · have up : provider.http = true := by simpa using down
    have sent : texts ≠ [] := by simpa using empty
    cases dumped : json.dump (provider.requestBody texts) with
    | none => simp [up, sent]
    | some bodyStr =>
        simp only [reduceCtorEq, and_false, iff_false]
        split <;> exact Option.some_ne_none _

theorem embedBatch_of_receives
    (receives : provider.Receives json postJson texts resp) :
    provider.embedBatch json postJson texts =
      some (readResponse json (List.replicate texts.length []) resp) := by
  obtain ⟨up, sent, bodyStr, dumped, attempt, within, rfl, succeeds,
    before⟩ := receives
  have answered : attempts
      (fun attempt => postJson attempt (provider.request bodyStr)) 0
        kMaxRetries = _ :=
    attempts_of_succeeded within (by simpa using succeeds)
      (by simpa using before)
  simp [embedBatch, up, sent, dumped, answered]

theorem embedBatch_of_givesUp
    (givesUp : provider.GivesUp json postJson texts) :
    provider.embedBatch json postJson texts =
      some (List.replicate texts.length []) := by
  obtain ⟨bodyStr, dumped, attempt, within, fails, last⟩ := givesUp
  have unanswered : attempts
      (fun attempt => postJson attempt (provider.request bodyStr)) 0
        kMaxRetries = none :=
    attempts_of_failed within (by simpa using fails) (by simpa using last)
  simp only [embedBatch, dumped, unanswered]
  split_ifs with down empty
  · rfl
  · rw [List.isEmpty_iff.mp empty]
    rfl
  · rfl

/-- What is put in place: for each text the last vector with its index. -/
theorem getElem?_readResponse
    (carries : resp.Carries json items)
    {position : Nat}
    (inside : position < texts.length) :
    (readResponse json (List.replicate texts.length []) resp)[position]? =
      some ((Assoc.last items position).getD []) := by
  rw [readResponse_of_carries carries, Assoc.getElem?_foldl_set,
    List.getElem?_replicate, if_pos inside]
  rfl

/-- The items that are put in place are those in range. -/
theorem last_inRange
    {position : Nat}
    (inside : position < texts.length) :
    Assoc.last (inRange texts items) position =
      Assoc.last items position := by
  induction items with
  | nil => rfl
  | cons item items inductionHypothesis =>
      rw [Assoc.last_cons, ← inductionHypothesis, inRange, List.filter_cons]
      split <;> rename_i within
      · rw [Assoc.last_cons]
        rfl
      · have other : position ≠ item.1 := by
          rintro rfl
          exact within (decide_eq_true inside)
        rw [if_neg other, Option.or_none]
        rfl

theorem readResponse_of_perm
    {resp' : HttpResponse}
    {items' : List (Nat × List φ)}
    (carries : resp.Carries json items)
    (carries' : resp'.Carries json items')
    (distinct : (items.map Prod.fst).Nodup)
    (permuted : (inRange texts items).Perm (inRange texts items')) :
    readResponse json (List.replicate texts.length []) resp =
      readResponse json (List.replicate texts.length []) resp' := by
  have kept : ((inRange texts items).map Prod.fst).Nodup :=
    distinct.sublist (List.filter_sublist.map Prod.fst)
  have kept' : ((inRange texts items').map Prod.fst).Nodup :=
    (permuted.map Prod.fst).nodup_iff.mp kept
  refine List.ext_getElem? fun position => ?_
  by_cases inside : position < texts.length
  · have same : Assoc.last (inRange texts items) position =
        Assoc.last (inRange texts items') position := by
      refine Option.ext fun vector => ?_
      rw [Assoc.last_eq_some_iff kept, Assoc.last_eq_some_iff kept',
        permuted.mem_iff]
    rw [last_inRange inside, last_inRange inside] at same
    rw [getElem?_readResponse carries inside,
      getElem?_readResponse carries' inside, same]
  · rw [List.getElem?_eq_none, List.getElem?_eq_none]
    all_goals
      rw [length_readResponse, List.length_replicate]
      exact Nat.le_of_not_lt inside

end Call

/-- The vectors are aligned with the texts exactly when the texts, and the name
of the model, are UTF-8, unless nothing is sent. -/
theorem aligned_iff
    {J φ : Type}
    {json : JsonLibrary J φ}
    (strict : json.DumpsUtf8)
    (provider : OpenAIProvider)
    (texts : List String) :
    Aligned json provider texts ↔
      provider.http = false ∨ texts = [] ∨
        ∀ text ∈ provider.model :: texts, ValidUtf8 text := by
  have refused : json.dump (provider.requestBody texts) = none ↔
      ¬∀ text ∈ provider.model :: texts, ValidUtf8 text :=
    strict (provider.requestBody texts)
  constructor
  · intro aligned
    obtain ⟨results, returned, _⟩ := aligned.returned fun _ _ => {}
    by_contra sent
    push Not at sent
    have thrown : provider.embedBatch json (fun _ _ => {}) texts = none :=
      embedBatch_eq_none_iff.mpr ⟨by simpa using sent.1, sent.2.1,
        refused.mpr fun valid => absurd sent.2.2 (by simpa using valid)⟩
    rw [thrown] at returned
    cases returned
  · intro written
    have total : ∀ postJson,
        provider.embedBatch json postJson texts ≠ none := by
      intro postJson thrown
      obtain ⟨up, sent, unwritten⟩ := embedBatch_eq_none_iff.mp thrown
      rcases written with down | unsent | valid
      · simp [up] at down
      · exact sent unsent
      · exact refused.mp unwritten valid
    refine ⟨fun postJson => ?_, ?_, ?_, ?_⟩
    · obtain ⟨results, returned⟩ :=
        Option.ne_none_iff_exists'.mp (total postJson)
      exact ⟨results, returned, length_embedBatch returned⟩
    · intro postJson resp items results receives carries distinct returned
      rw [embedBatch_of_receives receives] at returned
      cases returned
      constructor
      · intro item member inside
        rw [getElem?_readResponse carries inside,
          (Assoc.last_eq_some_iff distinct).mpr member]
        rfl
      · intro position inside absent
        rw [getElem?_readResponse carries inside,
          Assoc.last_eq_none_iff.mpr absent]
        rfl
    · intro postJson postJson' resp resp' items items' receives carries
        receives' carries' distinct permuted
      rw [embedBatch_of_receives receives, embedBatch_of_receives receives',
        readResponse_of_perm carries carries' distinct permuted]
    · exact fun postJson givesUp => embedBatch_of_givesUp givesUp

/-- The provider as it is initialized with a key and the defaults. -/
def defaultProvider : OpenAIProvider :=
  { apiKey := "key"
    model := "text-embedding-3-small"
    dimensions := 1024
    http := true }

/-- A library that reads one text, as an answer with these items.  Its values
are lists of items. -/
def answering (items : List (Nat × List Nat)) :
    JsonLibrary (List (Nat × List Nat)) Nat where
  dump body := if body.IsUtf8 then some "" else none
  parse text := if text = "answer" then some items else none
  field _ value := some value
  elements value := value.map fun item => [item]
  toSize value := value.head?.map Prod.fst
  toVector value := value.head?.map Prod.snd

theorem dumpsUtf8_answering (items : List (Nat × List Nat)) :
    (answering items).DumpsUtf8 := by
  intro body
  simp [answering]

/-- The first attempt times out, and the second is answered. -/
def secondTime : Nat → PostJson → HttpResponse :=
  fun attempt _ =>
    if attempt = 0 then {}
    else { statusCode := 200, body := "answer", curlOk := true }

/-- The answer is out of order, with one text left out and an index that is
none. -/
theorem aligned_sampleTexts :
    Aligned (answering [(7, [4]), (2, [6]), (0, [5])]) defaultProvider
        ["a", "b", "c"] ∧
      defaultProvider.embedBatch (answering [(7, [4]), (2, [6]), (0, [5])])
          secondTime ["a", "b", "c"] =
        some [[5], [], [6]] :=
  ⟨(aligned_iff (dumpsUtf8_answering _) defaultProvider
    ["a", "b", "c"]).mpr (.inr (.inr (by decide +kernel))),
    by decide +kernel⟩

/-- The text is in Latin-1, as a database with that encoding sends it. -/
theorem not_aligned_latin1 :
    (ofConfig { provider := "openai", apiKey := "key" }).init =
        .ok defaultProvider ∧
      ∀ (J : Type) (json : JsonLibrary J Nat), json.DumpsUtf8 →
        (∀ postJson,
          defaultProvider.embedBatch json postJson ["caf\xe9"] = none) ∧
        ¬Aligned json defaultProvider ["caf\xe9"] := by
  refine ⟨rfl, fun J json strict => ?_⟩
  have refused : json.dump (defaultProvider.requestBody ["caf\xe9"]) =
      none :=
    (strict _).mpr (by decide +kernel)
  have thrown : ∀ postJson,
      defaultProvider.embedBatch json postJson ["caf\xe9"] = none :=
    fun _ => embedBatch_eq_none_iff.mpr
      ⟨rfl, List.cons_ne_nil _ _, refused⟩
  refine ⟨thrown, fun aligned => ?_⟩
  obtain ⟨results, returned, _⟩ := aligned.returned fun _ _ => {}
  rw [thrown] at returned
  cases returned

end OpenAIProvider

end Provider
end Walkrie
