import Walkrie.Provider.Packing

/-!
# Chunks of texts

Embedding texts in chunks is embedding them one by one.  Over the loop of
`embed_batch`, the results with the chunk at hand written to them are the
results with every text written that has been taken so far; a flush only
changes which of the two parts a text is in.
-/

namespace Walkrie
namespace Provider
namespace Llama

variable {Token φ : Type}

section

variable {context : Context Token φ} {embedding : List Token → List φ}

/-! ## Texts in chunks -/

/-- The number of tokens of a chunk. -/
def tokensIn (chunk : List (TokenizedText Token)) : Nat :=
  (chunk.map fun item => item.tokens.length).sum

/-- A chunk that was encoded is within the limits, and `build_batch` fills the
slots that were allocated and needs no other. -/
structure Fits (context : Context Token φ)
    (chunk : List (TokenizedText Token) × Int) : Prop where
  sequences : chunk.1.length ≤ context.nSeqMax.toNat
  allocated : chunk.2 = tokensIn chunk.1
  tokens : tokensIn chunk.1 ≤ context.nBatch.toNat
  filled : ∃ batch, buildBatch chunk.1 (Batch.init chunk.2.toNat) =
    some batch ∧ batch.nTokens = chunk.2 ∧
      batch.slots.length = chunk.2.toNat ∧ none ∉ batch.slots

/-- Whether `embed_batch` puts a text in a chunk. -/
def Context.takes (context : Context Token φ) (tokens : List Token) : Bool :=
  !tokens.isEmpty && tokens.length ≤ context.nBatch.toNat

/-- The results with the vectors of some texts written. -/
def settle (embedding : List Token → List φ) (results : List (List φ))
    (items : List (TokenizedText Token)) : List (List φ) :=
  items.foldl
    (fun results item =>
      results.set item.originalIndex (vectorOf embedding item.tokens))
    results

/-- What holds in the loop of `embed_batch`.  The results with the chunk at
hand written are those with all texts written that have been taken so far. -/
structure Chunked (context : Context Token φ)
    (embedding : List Token → List φ) (initial : List (List φ))
    (processed : List (TokenizedText Token)) (state : Chunking Token φ) :
    Prop where
  valid : ∀ item ∈ state.chunk, Valid item
  counted : state.chunkTokens = tokensIn state.chunk
  tokens : tokensIn state.chunk ≤ context.nBatch.toNat
  sequences : (state.chunk.length : Int) ≤ context.maxSeqPerChunk
  fits : ∀ chunk ∈ state.encoded, Fits context chunk
  settled : settle embedding state.results state.chunk =
    settle embedding initial
      (processed.filter fun item => context.takes item.tokens)

theorem maxSeqPerChunk_le (positive : 1 ≤ context.nSeqMax.toNat) :
    context.maxSeqPerChunk ≤ context.nSeqMax.toNat :=
  max_le (by exact_mod_cast positive) (toInt_le _)

theorem maxSeqPerChunk_lt : context.maxSeqPerChunk < 2 ^ 31 :=
  max_lt (by norm_num) (toInt_lt _)

theorem fits_of_encodes
    {chunk : List (TokenizedText Token)}
    (valid : ∀ item ∈ chunk, Valid item)
    (sequences : chunk.length ≤ context.nSeqMax.toNat)
    (tokens : tokensIn chunk ≤ context.nBatch.toNat) :
    Fits context (chunk, (tokensIn chunk : Int)) := by
  have written : (slotsIn chunk).length = tokensIn chunk :=
    length_slotsIn chunk valid
  have built := buildBatch_init chunk valid 0
  rw [Nat.add_zero, written] at built
  refine ⟨sequences, rfl, tokens, _, built, ?_, ?_, ?_⟩
  · exact congrArg Nat.cast written
  · simp [Batch.filled, written]
  · simp [Batch.filled]

/-- Flushing encodes the chunk at hand and keeps what holds. -/
theorem flushChunk_spec
    (lawful : Lawful context embedding)
    (positive : 1 ≤ context.nSeqMax.toNat)
    {initial : List (List φ)}
    {processed : List (TokenizedText Token)}
    {state : Chunking Token φ}
    (chunked : Chunked context embedding initial processed state) :
    ∃ flushed, context.flushChunk state = some flushed ∧
      flushed.chunk = [] ∧
      Chunked context embedding initial processed flushed := by
  unfold Context.flushChunk
  split <;> rename_i empty
  · exact ⟨state, rfl, List.isEmpty_iff.mp empty, chunked⟩
  · have written := length_slotsIn state.chunk chunked.valid
    have sequences : state.chunk.length ≤ context.nSeqMax.toNat := by
      exact_mod_cast chunked.sequences.trans (maxSeqPerChunk_le positive)
    have few : state.chunk.length < 2 ^ 31 := by
      exact_mod_cast chunked.sequences.trans_lt maxSeqPerChunk_lt
    have encoded := encodeChunk_eq lawful chunked.valid few sequences
      (written.trans_le chunked.tokens)
    have fits := fits_of_encodes chunked.valid sequences chunked.tokens
    rw [chunked.counted, Int.toNat_natCast, tokensIn, ← written, encoded]
    refine ⟨_, rfl, rfl, by simp, by simp [tokensIn], by simp [tokensIn],
      by simp [Context.maxSeqPerChunk], ?_, ?_⟩
    · intro chunk member
      rcases List.mem_append.mp member with earlier | last
      · exact chunked.fits chunk earlier
      · rw [List.mem_singleton.mp last, written]
        exact fits
    · have pairs : state.chunk.zip (state.chunk.map fun item =>
          vectorOf embedding item.tokens) = state.chunk.map fun item =>
            (item, vectorOf embedding item.tokens) := by
        simpa using List.zip_map' (f := id) (l := state.chunk)
          (g := fun item => vectorOf embedding item.tokens)
      rw [← chunked.settled]
      simp only [Option.getD_some, pairs, List.foldl_map]
      rfl

theorem chunked_start
    {context : Context Token φ}
    (embedding : List Token → List φ)
    (initial : List (List φ)) :
    Chunked context embedding initial [] { results := initial } :=
  ⟨by simp, by simp [tokensIn], by simp [tokensIn],
    by simp [Context.maxSeqPerChunk], by simp, rfl⟩

theorem Chunked.skip
    {initial : List (List φ)}
    {processed : List (TokenizedText Token)}
    {state : Chunking Token φ}
    (chunked : Chunked context embedding initial processed state)
    {item : TokenizedText Token}
    (skipped : context.takes item.tokens = false) :
    Chunked context embedding initial (processed ++ [item]) state where
  __ := chunked
  settled := by
    rw [chunked.settled, List.filter_append]
    simp [skipped]

theorem Chunked.append
    {initial : List (List φ)}
    {processed : List (TokenizedText Token)}
    {state : Chunking Token φ}
    (chunked : Chunked context embedding initial processed state)
    {item : TokenizedText Token}
    (valid : Valid item)
    (taken : context.takes item.tokens = true)
    (tokens : tokensIn state.chunk + item.tokens.length ≤
      context.nBatch.toNat)
    (sequences : (state.chunk.length : Int) < context.maxSeqPerChunk) :
    Chunked context embedding initial (processed ++ [item])
      { state with
        chunk := state.chunk ++ [item]
        chunkTokens := state.chunkTokens + item.tokens.length } where
  valid := by
    intro other member
    rcases List.mem_append.mp member with earlier | last
    · exact chunked.valid other earlier
    · rwa [List.mem_singleton.mp last]
  counted := by simp [tokensIn, chunked.counted]
  tokens := by simpa [tokensIn] using tokens
  sequences := by
    rw [List.length_append, List.length_singleton]
    exact_mod_cast sequences
  fits := chunked.fits
  settled := by
    have earlier := chunked.settled
    simp only [settle] at earlier
    rw [List.filter_append]
    simp [settle, taken, earlier]

/-! ## Sums of tokens -/

/-- The number of texts and of tokens of the chunk at hand. -/
def Chunking.size (state : Chunking Token φ) : Nat × Nat :=
  (state.chunk.length, tokensIn state.chunk)

/-- The size of the chunk at hand once a text with a number of tokens is in
it: that text alone if the chunk had to be flushed. -/
def Context.sizeWith (context : Context Token φ) (size : Nat × Nat)
    (count : Nat) : Nat × Nat :=
  if context.nBatch.toNat < size.2 + count ∨
      context.maxSeqPerChunk ≤ size.1 then (1, count)
  else (size.1 + 1, size.2 + count)

/-- Wherever a text is compared with the chunk at hand, the tokens of both
together are an `int`. -/
def Context.SumsFit (context : Context Token φ) :
    Nat × Nat → List Nat → Prop
  | _, [] => True
  | size, count :: counts =>
      size.2 + count < 2 ^ 31 ∧
        context.SumsFit (context.sizeWith size count) counts

instance (context : Context Token φ) (size : Nat × Nat) :
    (counts : List Nat) → Decidable (context.SumsFit size counts)
  | [] => .isTrue trivial
  | count :: counts =>
      have := instDecidableSumsFit context (context.sizeWith size count) counts
      inferInstanceAs (Decidable (_ ∧ _))

/-- A text with more tokens than `n_batch`, or none, is left out. -/
theorem addText_of_not_takes
    {state : Chunking Token φ}
    {item : TokenizedText Token}
    (valid : Valid item)
    (skipped : context.takes item.tokens = false) :
    context.addText state item = some state := by
  unfold Context.addText
  simp only [toInt_of_lt valid.short]
  split
  · rfl
  · rename_i useful
    have nonempty : item.tokens ≠ [] := by
      rintro empty
      simp [empty] at useful
    have large : context.nBatch.toNat < item.tokens.length := by
      simpa [Context.takes, nonempty] using skipped
    -- The cast can only lower the limit, so the text exceeds it still.
    have lowered : context.maxTokensPerChunk ≤ context.nBatch.toNat :=
      toInt_le _
    rw [if_pos (by omega)]

section Taken

variable {initial : List (List φ)}
variable {processed : List (TokenizedText Token)}
variable {state : Chunking Token φ}
variable {item : TokenizedText Token}

/-- What `addText` does with a text it takes. -/
theorem addText_of_takes
    (valid : Valid item)
    (small : context.nBatch.toNat < 2 ^ 31)
    (taken : context.takes item.tokens = true) :
    context.addText state item =
      (context.overflows state item.tokens.length).bind fun full =>
        (if full then context.flushChunk state else some state).bind
          fun state =>
            (addInt state.chunkTokens item.tokens.length).map
              fun chunkTokens =>
                { state with chunk := state.chunk ++ [item], chunkTokens } := by
  simp only [Context.takes, Bool.and_eq_true, Bool.not_eq_true',
    List.isEmpty_eq_false_iff, decide_eq_true_eq] at taken
  have kept : item.ok = true := by
    by_contra failed
    exact taken.1 (valid.dropped (by simpa using failed))
  have limit : context.maxTokensPerChunk = context.nBatch.toNat :=
    toInt_of_lt small
  unfold Context.addText
  simp only [toInt_of_lt valid.short, limit]
  rw [if_neg (by simp [kept, taken.1]), if_neg (by omega)]

/-- A sum that is no `int` has no defined result. -/
theorem addText_of_large
    (valid : Valid item)
    (small : context.nBatch.toNat < 2 ^ 31)
    (taken : context.takes item.tokens = true)
    (chunked : Chunked context embedding initial processed state)
    (large : 2 ^ 31 ≤ state.size.2 + item.tokens.length) :
    context.addText state item = none := by
  have short := valid.short
  rw [Chunking.size] at large
  have occupied : state.chunk ≠ [] := by
    rintro empty
    rw [empty, tokensIn, List.map_nil, List.sum_nil] at large
    omega
  have undefined : addInt state.chunkTokens item.tokens.length = none := by
    rw [chunked.counted]
    exact if_neg (by omega)
  rw [addText_of_takes valid small taken, Context.overflows,
    if_neg (by simpa using occupied), undefined]
  rfl

/-- The comparison of a text with the limits of the chunk, where the sum is an
`int`. -/
theorem overflows_of_fits
    (small : context.nBatch.toNat < 2 ^ 31)
    (within : item.tokens.length ≤ context.nBatch.toNat)
    (chunked : Chunked context embedding initial processed state)
    (fits : tokensIn state.chunk + item.tokens.length < 2 ^ 31) :
    context.overflows state item.tokens.length =
      some (decide (context.nBatch.toNat <
          tokensIn state.chunk + item.tokens.length ∨
        context.maxSeqPerChunk ≤ state.chunk.length)) := by
  have one : (0 : Int) < context.maxSeqPerChunk :=
    lt_max_of_lt_left one_pos
  have limit : context.maxTokensPerChunk = context.nBatch.toNat :=
    toInt_of_lt small
  have few : state.chunk.length < 2 ^ 31 := by
    exact_mod_cast chunked.sequences.trans_lt maxSeqPerChunk_lt
  unfold Context.overflows
  split <;> rename_i empty
  · simp [List.isEmpty_iff.mp empty, tokensIn, within, one]
  · rw [chunked.counted, addInt_of_lt (by omega) (by omega), limit,
      toInt_of_lt few, Option.map_some, Option.some_inj, Bool.eq_iff_iff]
    simp only [Bool.or_eq_true, decide_eq_true_eq]
    exact or_congr (by omega) Iff.rfl

/-- A text goes to a chunk with room for it. -/
theorem Chunked.exists_append
    (chunked : Chunked context embedding initial processed state)
    (valid : Valid item)
    (small : context.nBatch.toNat < 2 ^ 31)
    (taken : context.takes item.tokens = true)
    (room : tokensIn state.chunk + item.tokens.length ≤
      context.nBatch.toNat)
    (space : (state.chunk.length : Int) < context.maxSeqPerChunk) :
    ∃ next, (addInt state.chunkTokens item.tokens.length).map
        (fun chunkTokens =>
          { state with chunk := state.chunk ++ [item], chunkTokens }) =
        some next ∧
      Chunked context embedding initial (processed ++ [item]) next ∧
      next.size = (state.chunk.length + 1,
        tokensIn state.chunk + item.tokens.length) := by
  have total : addInt state.chunkTokens item.tokens.length =
      some (state.chunkTokens + item.tokens.length) := by
    rw [chunked.counted]
    exact addInt_of_lt (by omega) (by omega)
  rw [total]
  exact ⟨_, rfl, chunked.append valid taken room space,
    by simp [Chunking.size, tokensIn]⟩

/-- A text that is taken has room in the chunk, after a flush if need be. -/
theorem addText_of_fits
    (lawful : Lawful context embedding)
    (positive : 1 ≤ context.nSeqMax.toNat)
    (valid : Valid item)
    (small : context.nBatch.toNat < 2 ^ 31)
    (taken : context.takes item.tokens = true)
    (chunked : Chunked context embedding initial processed state)
    (fits : state.size.2 + item.tokens.length < 2 ^ 31) :
    ∃ next, context.addText state item = some next ∧
      Chunked context embedding initial (processed ++ [item]) next ∧
      next.size = context.sizeWith state.size item.tokens.length := by
  have within : item.tokens.length ≤ context.nBatch.toNat := by
    simp only [Context.takes, Bool.and_eq_true, decide_eq_true_eq] at taken
    exact taken.2
  rw [addText_of_takes valid small taken,
    overflows_of_fits small within chunked fits, Option.bind_some,
    Context.sizeWith, Chunking.size]
  by_cases full : context.nBatch.toNat <
      tokensIn state.chunk + item.tokens.length ∨
        context.maxSeqPerChunk ≤ state.chunk.length
  · have one : (0 : Int) < context.maxSeqPerChunk :=
      lt_max_of_lt_left one_pos
    obtain ⟨flushed, flushes, cleared, kept⟩ :=
      flushChunk_spec lawful positive chunked
    obtain ⟨next, adds, holds, size⟩ := kept.exists_append valid small taken
      (by simpa [cleared, tokensIn] using within) (by simpa [cleared] using one)
    rw [if_pos (decide_eq_true full), flushes, if_pos full]
    exact ⟨next, adds, holds, by simpa [cleared, tokensIn] using size⟩
  · rw [if_neg (by simpa using full), if_neg full]
    exact chunked.exists_append valid small taken (by omega) (by omega)

end Taken

/-- The numbers of tokens of the texts that are put in chunks. -/
def Context.counts (context : Context Token φ)
    (items : List (TokenizedText Token)) : List Nat :=
  (items.filter fun item => context.takes item.tokens).map
    fun item => item.tokens.length

/-- The loop has a result exactly when all sums are `int`s. -/
theorem foldlM_addText
    (lawful : Lawful context embedding)
    (positive : 1 ≤ context.nSeqMax.toNat)
    (small : context.nBatch.toNat < 2 ^ 31)
    {initial : List (List φ)}
    (items : List (TokenizedText Token))
    (valid : ∀ item ∈ items, Valid item)
    {processed : List (TokenizedText Token)}
    {state : Chunking Token φ}
    (chunked : Chunked context embedding initial processed state) :
    (context.SumsFit state.size (context.counts items) →
      ∃ final, items.foldlM context.addText state = some final ∧
        Chunked context embedding initial (processed ++ items) final) ∧
    (¬context.SumsFit state.size (context.counts items) →
      items.foldlM context.addText state = none) := by
  induction items generalizing processed state with
  | nil =>
      exact ⟨fun _ => ⟨state, rfl, by simpa using chunked⟩,
        fun wrong => absurd trivial wrong⟩
  | cons item items inductionHypothesis =>
      rw [List.forall_mem_cons] at valid
      rw [List.foldlM_cons, List.append_cons]
      cases taken : context.takes item.tokens with
      | false =>
          rw [addText_of_not_takes valid.1 taken]
          have later := inductionHypothesis valid.2 (chunked.skip taken)
          simpa [Context.counts, taken] using later
      | true =>
          have counts : context.counts (item :: items) =
              item.tokens.length :: context.counts items := by
            simp [Context.counts, taken]
          rw [counts, Context.SumsFit]
          by_cases fits : state.size.2 + item.tokens.length < 2 ^ 31
          · obtain ⟨next, adds, kept, size⟩ := addText_of_fits lawful positive
              valid.1 small taken chunked fits
            rw [adds, ← size, and_iff_right fits]
            exact inductionHypothesis valid.2 kept
          · rw [addText_of_large valid.1 small taken chunked (by omega)]
            exact ⟨fun both => absurd both.1 fits, fun _ => rfl⟩

end

/-- What `embed_batch` is for: it returns a vector for every text, the one
`embed` gives if the text has at most `n_batch` tokens; and every chunk it
encodes fits. -/
structure Matches (context : Context Token φ) (texts : List String)
    (state : Chunking Token φ) : Prop where
  returned : context.embedBatch texts = some state.results
  each : List.Forall₂
    (fun text result =>
      if (context.tokensOf text).length ≤ context.nBatch.toNat then
        context.embed text = some result
      else result = [])
    texts state.results
  fits : ∀ chunk ∈ state.encoded, Fits context chunk

/-- Embedding in chunks has a defined result, which is that of embedding the
texts one by one. -/
def EmbedsAsOne (context : Context Token φ) (texts : List String) : Prop :=
  ∃ state, context.chunking texts = some state ∧
    Matches context texts state

theorem settle_tokenizeBatch
    (context : Context Token φ)
    (embedding : List Token → List φ)
    (texts : List String) :
    settle embedding (List.replicate texts.length [])
        ((context.tokenizeBatch texts).filter fun item =>
          context.takes item.tokens) =
      texts.map fun text =>
        if context.takes (context.tokensOf text) then
          vectorOf embedding (context.tokensOf text)
        else [] := by
  have places := Loop.foldl_set_zipIdx
    (fun text => context.takes (context.tokensOf text))
    (fun text => vectorOf embedding (context.tokensOf text)) [] texts []
  have index : ∀ entry : String × Nat,
      (context.tokenizeText entry.1 entry.2).originalIndex = entry.2 := by
    intro entry
    unfold Context.tokenizeText
    simp only
    split <;> rfl
  rw [settle, Context.tokenizeBatch, List.filter_map, List.foldl_map]
  simpa [tokens_tokenizeText, index, Function.comp_def] using places

/-! ## A context that counts -/

/-- A context with up to four tokens a text, two sequences, and the number of
tokens of a sequence as its embedding. -/
def counting (nBatch : UInt32) : Context Nat Nat where
  nCtx := 4
  nCtx_lt := by norm_num
  nSeqMax := 2
  nBatch := nBatch
  textPrefix := ""
  tokenize text := (text.length, Vector.range 4)
  encode slots := some
    { seq := fun seqId =>
        match (sequence seqId slots).length with
        | 0 => none
        | count + 1 => some [count + 1]
      ith := fun _ => none }

theorem lawful_counting (nBatch : UInt32) :
    Lawful (counting nBatch) fun tokens => [tokens.length] where
  succeeds _ _ _ := rfl
  gives := by
    rintro slots encoded seqId tokens ⟨⟩ nonempty alone
    obtain ⟨count, counted⟩ := Nat.exists_eq_succ_of_ne_zero
      (mt List.length_eq_zero_iff.mp nonempty)
    refine .inl ?_
    simp only [alone, List.length_zipIdx, counted]
  absent := by
    rintro slots encoded seqId ⟨⟩ nothing
    simp only [nothing, List.length_nil]

/-! ## Chunks and single texts -/

section

variable {context : Context Token φ} {embedding : List Token → List φ}

theorem valid_of_mem_tokenizeBatch
    (context : Context Token φ)
    (texts : List String) :
    ∀ item ∈ context.tokenizeBatch texts, Valid item := by
  intro item member
  obtain ⟨⟨text, index⟩, _, rfl⟩ := List.mem_map.mp member
  exact valid_tokenizeText context text index

/-- `embed_batch` returns what its loops leave in the results. -/
theorem embedBatch_of_chunking
    {texts : List String}
    {state : Chunking Token φ}
    (runs : context.chunking texts = some state)
    (length : state.results.length = texts.length) :
    context.embedBatch texts = some state.results := by
  unfold Context.embedBatch
  split <;> rename_i empty
  · rw [List.isEmpty_iff.mp empty, List.length_nil,
      List.length_eq_zero_iff] at length
    rw [length]
  · rw [runs, Option.map_some]

/-- As long as all sums are `int`s, chunks give what single texts give. -/
theorem embedsAsOne_of_sumsFit
    (lawful : Lawful context embedding)
    (positive : 1 ≤ context.nSeqMax.toNat)
    (small : context.nBatch.toNat < 2 ^ 31)
    {texts : List String}
    (fit : context.SumsFit (0, 0)
      (context.counts (context.tokenizeBatch texts))) :
    EmbedsAsOne context texts := by
  obtain ⟨state, loops, chunked⟩ := (foldlM_addText lawful positive small _
    (valid_of_mem_tokenizeBatch context texts)
    (chunked_start embedding _)).1 fit
  -- After the last flush no text is left in the chunk, so the results are
  -- those of all texts that were taken.
  obtain ⟨final, flushes, cleared, ends⟩ :=
    flushChunk_spec lawful positive chunked
  have runs : context.chunking texts = some final := by
    rw [Context.chunking, loops, Option.bind_some, flushes]
  have results : final.results = texts.map fun text =>
      if context.takes (context.tokensOf text) then
        vectorOf embedding (context.tokensOf text)
      else [] := by
    rw [← settle_tokenizeBatch, ← List.nil_append
      (context.tokenizeBatch texts), ← ends.settled, cleared]
    rfl
  refine ⟨final, runs, embedBatch_of_chunking runs (by simp [results]), ?_,
    ends.fits⟩
  rw [results, List.forall₂_map_right_iff, List.forall₂_same]
  intro text _
  split <;> rename_i within
  · rw [embed_eq lawful positive within]
    by_cases empty : context.tokensOf text = []
    · simp [Context.takes, vectorOf, empty]
    · simp [Context.takes, empty, within]
  · simp [Context.takes, within]

/-- With a limit that is negative as an `int`, every text is left out. -/
theorem chunking_of_large
    (large : 2 ^ 31 ≤ context.nBatch.toNat)
    (texts : List String) :
    context.chunking texts =
      some { results := List.replicate texts.length [] } := by
  have negative : context.maxTokensPerChunk < 0 := by
    have bound := context.nBatch.toNat_lt
    unfold Context.maxTokensPerChunk toInt
    rw [Int.bmod_def, if_neg (by omega)]
    omega
  have left : ∀ (state : Chunking Token φ) (item : TokenizedText Token),
      Valid item → context.addText state item = some state := by
    intro state item valid
    unfold Context.addText
    simp only [toInt_of_lt valid.short]
    split
    · rfl
    · rw [if_pos (by omega)]
  have loops : ∀ items : List (TokenizedText Token),
      (∀ item ∈ items, Valid item) → ∀ state : Chunking Token φ,
        items.foldlM context.addText state = some state := by
    intro items
    induction items with
    | nil => exact fun _ _ => rfl
    | cons item items inductionHypothesis =>
        intro valid state
        rw [List.forall_mem_cons] at valid
        rw [List.foldlM_cons, left state item valid.1]
        exact inductionHypothesis valid.2 state
  rw [Context.chunking, loops _ (valid_of_mem_tokenizeBatch context texts)]
  rfl

/-- Embedding in chunks is embedding one by one exactly when `n_batch` is an
`int` and so is every sum of the tokens of a chunk and of the next text, or
else no text has a vector to lose. -/
theorem embedsAsOne_iff
    (context : Context Token φ)
    (embedding : List Token → List φ)
    (lawful : Lawful context embedding)
    (positive : 1 ≤ context.nSeqMax.toNat)
    (texts : List String) :
    EmbedsAsOne context texts ↔
      context.nBatch.toNat < 2 ^ 31 ∧
          context.SumsFit (0, 0)
            (context.counts (context.tokenizeBatch texts)) ∨
        2 ^ 31 ≤ context.nBatch.toNat ∧
          ∀ text ∈ texts, vectorOf embedding (context.tokensOf text) = [] := by
  rcases Nat.lt_or_ge context.nBatch.toNat (2 ^ 31) with small | large
  · simp only [small, true_and, Nat.not_le.mpr small, false_and, or_false]
    constructor
    · rintro ⟨state, runs, _⟩
      by_contra unfit
      rw [Context.chunking, (foldlM_addText lawful positive small _
        (valid_of_mem_tokenizeBatch context texts)
        (chunked_start embedding _)).2 unfit] at runs
      cases runs
    · exact embedsAsOne_of_sumsFit lawful positive small
  · simp only [Nat.not_lt.mpr large, false_and, large, true_and, false_or]
    have runs := chunking_of_large large texts
    have within : ∀ text,
        (context.tokensOf text).length ≤ context.nBatch.toNat := fun text =>
      ((valid_tokenizeText context text 0).short.trans_le large).le
    have each : List.Forall₂
        (fun text result =>
          if (context.tokensOf text).length ≤ context.nBatch.toNat then
            context.embed text = some result
          else result = [])
        texts (List.replicate texts.length []) ↔
          ∀ text ∈ texts, vectorOf embedding (context.tokensOf text) = [] := by
      rw [← List.map_const', List.forall₂_map_right_iff, List.forall₂_same]
      simp only [within, if_true, embed_eq lawful positive (within _),
        Option.some_inj]
    constructor
    · rintro ⟨state, ran, matched⟩
      cases runs.symm.trans ran
      exact each.mp matched.each
    · intro empty
      exact ⟨_, runs, embedBatch_of_chunking runs (by simp), each.mpr empty,
        by simp⟩

end

/-- Five texts in two chunks, with one too long for the context and one
without tokens. -/
theorem embedsAsOne_fiveTexts :
    EmbedsAsOne (counting 5) ["ab", "long text", "", "cde", "f"] :=
  (embedsAsOne_iff (counting 5) _ (lawful_counting 5) (by decide) _).mpr
    (.inl (by decide))

/-- A limit of `2 ^ 31` tokens is negative as an `int`, so that every text
exceeds it. -/
theorem not_embedsAsOne_oneText :
    Lawful (counting 2147483648) (fun tokens => [tokens.length]) ∧
      1 ≤ (counting 2147483648).nSeqMax.toNat ∧
      1 ≤ (counting 2147483648).nBatch.toNat ∧
      ¬ EmbedsAsOne (counting 2147483648) ["a"] := by
  refine ⟨lawful_counting _, by decide, by decide, ?_⟩
  rintro ⟨state, _, returned, each, _⟩
  have dropped : (counting 2147483648).embedBatch ["a"] = some [[]] := by
    decide
  have embedded : (counting 2147483648).embed "a" = some [1] := by
    decide
  rw [← Option.some.inj (dropped.symm.trans returned),
    List.forall₂_cons, if_pos (by decide), embedded] at each
  exact absurd each.1 (by decide)

end Llama
end Provider
end Walkrie
