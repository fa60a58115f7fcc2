import Walkrie.Library.Loop
import Walkrie.Provider.Llama

/-!
# What a batch holds

`build_batch` fills a batch with the slots of its texts, one text after the
other.  Restricted to the sequence id of a text, the batch is that text alone,
so that encoding it gives every text the embedding of its tokens, whichever
texts it shares the batch with.
-/

namespace Walkrie
namespace Provider
namespace Llama

variable {Token φ : Type}

/-! ## Integers -/

theorem toInt_of_lt {value : Nat} (small : value < 2 ^ 31) :
    toInt value = value :=
  Int.bmod_eq_of_le (by omega) (by norm_num; omega)

theorem toInt_lt (value : Nat) : toInt value < 2 ^ 31 :=
  Int.bmod_lt (by norm_num)

theorem bmod_le_self (value modulus : Nat) :
    (value : Int).bmod modulus ≤ value := by
  have reduced : (value : Int) % modulus ≤ value := by
    exact_mod_cast Nat.mod_le value modulus
  rw [Int.bmod_eq_emod]
  exact (sub_le_self _ (Int.natCast_nonneg _)).trans reduced

theorem toInt_le (value : Nat) : toInt value ≤ value :=
  bmod_le_self value (2 ^ 32)

theorem addInt_of_lt
    {left right : Int}
    (nonnegative : 0 ≤ left + right)
    (small : left + right < 2 ^ 31) :
    addInt left right = some (left + right) :=
  if_pos ⟨by omega, small⟩

/-! ## Building a batch -/

/-- A batch whose first slots are written. -/
def Batch.filled (written : List (Slot Token)) (rest : Nat) : Batch Token :=
  { slots := written.map some ++ List.replicate rest none
    nTokens := written.length }

theorem write_filled
    (written : List (Slot Token))
    (slot : Slot Token)
    (rest : Nat) :
    (Batch.filled written (rest + 1)).write slot =
      some (Batch.filled (written ++ [slot]) rest) := by
  simp [Batch.write, Batch.filled, List.replicate_succ]

theorem foldlM_write_filled
    (slots written : List (Slot Token))
    (rest : Nat) :
    slots.foldlM Batch.write (Batch.filled written (slots.length + rest)) =
      some (Batch.filled (written ++ slots) rest) := by
  induction slots generalizing written with
  | nil => simp
  | cons slot slots inductionHypothesis =>
      have continued := inductionHypothesis (written ++ [slot])
      rw [List.foldlM_cons, List.length_cons, Nat.add_right_comm,
        write_filled]
      simpa using continued

/-- What holds of every text `tokenize_batch` returns. -/
structure Valid (item : TokenizedText Token) : Prop where
  dropped : item.ok = false → item.tokens = []
  short : item.tokens.length < 2 ^ 31

theorem valid_tokenizeText
    (context : Context Token φ)
    (text : String)
    (originalIndex : Nat) :
    Valid (context.tokenizeText text originalIndex) := by
  have limit := context.nCtx_lt
  unfold Context.tokenizeText
  simp only
  split
  · exact ⟨fun _ => rfl, by simp⟩
  · refine ⟨by simp, ?_⟩
    rw [List.length_take, Vector.length_toList]
    omega

/-- What `build_batch` writes. -/
def slotsIn (tokenized : List (TokenizedText Token)) : List (Slot Token) :=
  tokenized.zipIdx.flatMap fun entry => slotsOf entry.2 entry.1.tokens

theorem slotsOf_of_short
    (seqId : Nat)
    {tokens : List Token}
    (short : tokens.length < 2 ^ 31) :
    slotsOf seqId tokens = tokens.zipIdx.map fun entry =>
      { token := entry.1, pos := entry.2, seqId := toInt seqId } := by
  rw [slotsOf, toInt_of_lt short, Int.toNat_natCast, List.take_length]

theorem seqId_of_mem_slotsOf
    {seqId : Nat}
    {tokens : List Token}
    {slot : Slot Token}
    (member : slot ∈ slotsOf seqId tokens) :
    slot.seqId = toInt seqId := by
  obtain ⟨_, _, rfl⟩ := List.mem_map.mp member
  dsimp only

theorem length_slotsIn
    (tokenized : List (TokenizedText Token))
    (valid : ∀ item ∈ tokenized, Valid item) :
    (slotsIn tokenized).length =
      (tokenized.map fun item => item.tokens.length).sum := by
  have lengths : ∀ entry ∈ tokenized.zipIdx,
      (slotsOf entry.2 entry.1.tokens).length = entry.1.tokens.length := by
    intro entry member
    have short := (valid _ (List.fst_mem_of_mem_zipIdx member)).short
    rw [slotsOf_of_short _ short, List.length_map, List.length_zipIdx]
  rw [slotsIn, List.length_flatMap, List.map_congr_left lengths]
  conv_rhs => rw [← List.zipIdx_map_fst 0 tokenized, List.map_map]
  rfl

theorem add_filled
    (entry : TokenizedText Token × Nat)
    (valid : Valid entry.1)
    (written : List (Slot Token))
    (rest : Nat) :
    (Batch.filled written
        ((slotsOf entry.2 entry.1.tokens).length + rest)).add entry =
      some (Batch.filled (written ++ slotsOf entry.2 entry.1.tokens)
        rest) := by
  unfold Batch.add
  split <;> rename_i skipped
  · have empty : entry.1.tokens = [] := by
      simp only [Bool.or_eq_true, Bool.not_eq_true', List.isEmpty_iff]
        at skipped
      exact skipped.elim valid.dropped id
    simp [empty, slotsOf]
  · exact foldlM_write_filled _ _ _

theorem foldlM_add_filled
    (entries : List (TokenizedText Token × Nat))
    (valid : ∀ entry ∈ entries, Valid entry.1)
    (written : List (Slot Token))
    (rest : Nat) :
    entries.foldlM Batch.add (Batch.filled written
        ((entries.flatMap fun entry =>
          slotsOf entry.2 entry.1.tokens).length + rest)) =
      some (Batch.filled (written ++ entries.flatMap fun entry =>
        slotsOf entry.2 entry.1.tokens) rest) := by
  induction entries generalizing written with
  | nil => simp
  | cons entry entries inductionHypothesis =>
      have first := valid entry List.mem_cons_self
      have later := inductionHypothesis
        (fun entry member => valid entry (List.mem_cons_of_mem _ member))
        (written ++ slotsOf entry.2 entry.1.tokens)
      rw [List.foldlM_cons, List.flatMap_cons, List.length_append,
        Nat.add_assoc, add_filled entry first]
      simpa using later

/-- `build_batch` writes the slots of its texts one after the other and leaves
the others as they are. -/
theorem buildBatch_init
    (tokenized : List (TokenizedText Token))
    (valid : ∀ item ∈ tokenized, Valid item)
    (rest : Nat) :
    buildBatch tokenized (Batch.init ((slotsIn tokenized).length + rest)) =
      some (Batch.filled (slotsIn tokenized) rest) :=
  foldlM_add_filled tokenized.zipIdx
    (fun _ member => valid _ (List.fst_mem_of_mem_zipIdx member)) [] rest

theorem read_filled (written : List (Slot Token)) (rest : Nat) :
    (Batch.filled written rest).read = some written := by
  have taken : (written.map some ++ List.replicate rest none).take
      written.length = written.map some := by
    simp
  rw [Batch.read, Batch.filled, taken, List.mapM_map]
  exact (List.mapM_pure (f := id)).trans (congrArg some (List.map_id _))

/-! ## What a sequence is in a batch -/

/-- The tokens of a sequence with their positions. -/
def sequence (seqId : Int) (slots : List (Slot Token)) :
    List (Token × Nat) :=
  (slots.filter fun slot => slot.seqId = seqId).map
    fun slot => (slot.token, slot.pos)

theorem sequence_slotsOf
    {seqId index : Nat}
    {tokens : List Token}
    (idSmall : seqId < 2 ^ 31)
    (indexSmall : index < 2 ^ 31)
    (short : tokens.length < 2 ^ 31) :
    sequence (toInt seqId) (slotsOf index tokens) =
      if index = seqId then tokens.zipIdx else [] := by
  rw [sequence, slotsOf_of_short index short, toInt_of_lt idSmall,
    toInt_of_lt indexSmall, List.filter_map, List.map_map]
  by_cases same : index = seqId
  · simp [same, Function.comp_def]
  · simp [same, Function.comp_def]

/-- A batch restricted to the id of a text is that text. -/
theorem sequence_slotsIn
    {tokenized : List (TokenizedText Token)}
    (valid : ∀ item ∈ tokenized, Valid item)
    (few : tokenized.length < 2 ^ 31)
    {place : Nat}
    {item : TokenizedText Token}
    (found : tokenized[place]? = some item) :
    sequence (toInt place) (slotsIn tokenized) = item.tokens.zipIdx := by
  have placed : place < tokenized.length :=
    (List.getElem?_eq_some_iff.mp found).1
  have each : ∀ entry ∈ tokenized.zipIdx,
      sequence (toInt place) (slotsOf entry.2 entry.1.tokens) =
        if entry.2 = 0 + place then entry.1.tokens.zipIdx else [] := by
    intro entry member
    have bound := List.snd_lt_of_mem_zipIdx member
    have short := (valid _ (List.fst_mem_of_mem_zipIdx member)).short
    rw [sequence_slotsOf (by omega) (by omega) short, Nat.zero_add]
  calc sequence (toInt place) (slotsIn tokenized)
      = tokenized.zipIdx.flatMap fun entry =>
          sequence (toInt place) (slotsOf entry.2 entry.1.tokens) := by
        rw [sequence, slotsIn, List.filter_flatMap, List.map_flatMap]
        rfl
    _ = tokenized.zipIdx.flatMap fun entry =>
          if entry.2 = 0 + place then entry.1.tokens.zipIdx else [] :=
        List.flatMap_congr each
    _ = item.tokens.zipIdx := by
        rw [Loop.flatMap_zipIdx_place (fun item : TokenizedText Token =>
          item.tokens.zipIdx), found]
        rfl

/-- A batch has no more sequences than texts. -/
theorem card_seqIds_le (tokenized : List (TokenizedText Token)) :
    ((slotsIn tokenized).map Slot.seqId).toFinset.card ≤
      tokenized.length := by
  have among : ((slotsIn tokenized).map Slot.seqId).toFinset ⊆
      (Finset.range tokenized.length).image toInt := by
    intro seqId member
    simp only [slotsIn, List.mem_toFinset, List.mem_map,
      List.mem_flatMap] at member
    obtain ⟨slot, ⟨entry, placed, written⟩, rfl⟩ := member
    have bound := List.snd_lt_of_mem_zipIdx placed
    rw [seqId_of_mem_slotsOf written]
    exact Finset.mem_image_of_mem _ (Finset.mem_range.mpr (by omega))
  calc ((slotsIn tokenized).map Slot.seqId).toFinset.card
      ≤ ((Finset.range tokenized.length).image toInt).card :=
        Finset.card_le_card among
    _ ≤ (Finset.range tokenized.length).card := Finset.card_image_le
    _ = tokenized.length := Finset.card_range _

/-! ## Encoding a batch -/

/-- A vector is what an encoded batch has for a sequence: for the sequence as a
whole or, where there is nothing for that, for its last token. -/
def Gives (encoded : Encoded φ) (slots : List (Slot Token)) (seqId : Int)
    (count : Nat) (vector : List φ) : Prop :=
  encoded.seq seqId = some vector ∨
    encoded.seq seqId = none ∧
      ∀ index slot, slots[index]? = some slot → slot.seqId = seqId →
        slot.pos + 1 = count → encoded.ith index = some vector

/-- What is assumed of the library: a batch within the limits is encoded; and
then a sequence has the embedding of its tokens alone, and an id without tokens
has none. -/
structure Lawful (context : Context Token φ)
    (embedding : List Token → List φ) : Prop where
  succeeds : ∀ slots : List (Slot Token),
    slots.length ≤ context.nBatch.toNat →
    (slots.map Slot.seqId).toFinset.card ≤ context.nSeqMax.toNat →
    (context.encode slots).isSome
  gives : ∀ slots encoded seqId tokens,
    context.encode slots = some encoded → tokens ≠ [] →
    sequence seqId slots = tokens.zipIdx →
    Gives encoded slots seqId tokens.length (embedding tokens)
  absent : ∀ slots encoded seqId,
    context.encode slots = some encoded → sequence seqId slots = [] →
    encoded.seq seqId = none

/-- The vector of a text. -/
def vectorOf (embedding : List Token → List φ) (tokens : List Token) :
    List φ :=
  if tokens.isEmpty then [] else embedding tokens

theorem exists_last_slot
    {slots : List (Slot Token)}
    {seqId : Int}
    {tokens : List Token}
    (nonempty : tokens ≠ [])
    (alone : sequence seqId slots = tokens.zipIdx) :
    ∃ slot ∈ slots, slot.seqId = seqId ∧ slot.pos + 1 = tokens.length := by
  have positive := List.length_pos_iff.mpr nonempty
  have last : (tokens.getLast nonempty, tokens.length - 1) ∈
      sequence seqId slots := by
    rw [alone, List.mk_mem_zipIdx_iff_getElem?, List.getLast_eq_getElem]
    exact List.getElem?_eq_getElem _
  obtain ⟨slot, kept, pair⟩ := List.mem_map.mp last
  obtain ⟨member, same⟩ := List.mem_filter.mp kept
  refine ⟨slot, member, of_decide_eq_true same, ?_⟩
  have position : slot.pos = tokens.length - 1 := congrArg Prod.snd pair
  omega

theorem embeddingOf_gives
    {encoded : Encoded φ}
    {slots : List (Slot Token)}
    {seqId : Nat}
    {tokens : List Token}
    {vector : List φ}
    (short : tokens.length < 2 ^ 31)
    (nonempty : tokens ≠ [])
    (alone : sequence (toInt seqId) slots = tokens.zipIdx)
    (gives : Gives encoded slots (toInt seqId) tokens.length vector) :
    embeddingOf encoded slots seqId tokens = some vector := by
  rcases gives with whole | ⟨nothing, last⟩
  · rw [embeddingOf, whole, Option.some_or]
  · -- The search stops at a slot that can only be the last of the sequence.
    rw [embeddingOf, nothing, Option.none_or, toInt_of_lt short]
    obtain ⟨slot, member, same, position⟩ := exists_last_slot nonempty alone
    cases found : slots.findIdx? fun slot =>
        slot.seqId = toInt seqId ∧ (slot.pos : Int) = tokens.length - 1 with
    | none =>
        have missing := List.findIdx?_eq_none_iff.mp found slot member
        simp only [decide_eq_false_iff_not, same, true_and] at missing
        omega
    | some index =>
        obtain ⟨bound, here, _⟩ := List.findIdx?_eq_some_iff_getElem.mp found
        simp only [decide_eq_true_eq] at here
        exact last index _ (List.getElem?_eq_getElem bound) here.1
          (by omega)

theorem embeddingOf_nil
    {encoded : Encoded φ}
    {slots : List (Slot Token)}
    {seqId : Nat}
    (nothing : encoded.seq (toInt seqId) = none) :
    embeddingOf encoded slots seqId [] = none := by
  have never : ∀ slot ∈ slots, decide (slot.seqId = toInt seqId ∧
      (slot.pos : Int) = toInt ([] : List Token).length - 1) = false := by
    intro slot _
    have zero := @toInt_of_lt 0 (by norm_num)
    rw [List.length_nil, zero, decide_eq_false_iff_not]
    omega
  rw [embeddingOf, nothing, Option.none_or,
    List.findIdx?_eq_none_iff.mpr never, Option.bind_none]

section

variable {context : Context Token φ} {embedding : List Token → List φ}

/-- Every text of a batch has the embedding of its tokens. -/
theorem extractEmbeddings_slotsIn
    (lawful : Lawful context embedding)
    {tokenized : List (TokenizedText Token)}
    (valid : ∀ item ∈ tokenized, Valid item)
    (few : tokenized.length < 2 ^ 31)
    {encoded : Encoded φ}
    (succeeded : context.encode (slotsIn tokenized) = some encoded) :
    extractEmbeddings encoded (slotsIn tokenized) tokenized =
      tokenized.map fun item => vectorOf embedding item.tokens := by
  have each : ∀ entry ∈ tokenized.zipIdx,
      (if !entry.1.ok then []
        else (embeddingOf encoded (slotsIn tokenized) entry.2
          entry.1.tokens).getD []) =
        vectorOf embedding entry.1.tokens := by
    rintro ⟨item, place⟩ member
    have found : tokenized[place]? = some item :=
      List.mk_mem_zipIdx_iff_getElem?.mp member
    have alone := sequence_slotsIn valid few found
    obtain ⟨dropped, short⟩ := valid item (List.mem_of_getElem? found)
    by_cases empty : item.tokens = []
    · rw [empty, List.zipIdx_nil] at alone
      have nothing := lawful.absent _ _ _ succeeded alone
      simp [empty, vectorOf, embeddingOf_nil nothing]
    · have kept : item.ok = true := by
        by_contra failed
        exact empty (dropped (by simpa using failed))
      have gives := lawful.gives _ _ _ _ succeeded empty alone
      simp [kept, empty, vectorOf,
        embeddingOf_gives short empty alone gives]
  rw [extractEmbeddings, List.map_congr_left each]
  conv_rhs => rw [← List.zipIdx_map_fst 0 tokenized, List.map_map]
  rfl

/-- A batch within the limits gives every text the embedding of its tokens. -/
theorem encodeChunk_eq
    (lawful : Lawful context embedding)
    {tokenized : List (TokenizedText Token)}
    (valid : ∀ item ∈ tokenized, Valid item)
    (few : tokenized.length < 2 ^ 31)
    (sequences : tokenized.length ≤ context.nSeqMax.toNat)
    (tokens : (slotsIn tokenized).length ≤ context.nBatch.toNat) :
    context.encodeChunk tokenized (slotsIn tokenized).length =
      some (some (tokenized.map fun item =>
        vectorOf embedding item.tokens)) := by
  have built := buildBatch_init tokenized valid 0
  obtain ⟨encoded, succeeded⟩ := Option.isSome_iff_exists.mp
    (lawful.succeeds (slotsIn tokenized) tokens
      ((card_seqIds_le tokenized).trans sequences))
  rw [Nat.add_zero] at built
  rw [Context.encodeChunk, built, Option.bind_some, read_filled,
    Option.map_some, succeeded, Option.map_some,
    extractEmbeddings_slotsIn lawful valid few succeeded]

/-! ## Texts one by one -/

/-- The tokens of a text, none if tokenization fails. -/
def Context.tokensOf (context : Context Token φ) (text : String) :
    List Token :=
  (context.tokenizeText text 0).tokens

theorem tokens_tokenizeText
    (context : Context Token φ)
    (text : String)
    (originalIndex : Nat) :
    (context.tokenizeText text originalIndex).tokens =
      context.tokensOf text := by
  unfold Context.tokensOf Context.tokenizeText
  simp only
  split <;> rfl

theorem embed_eq
    (lawful : Lawful context embedding)
    (positive : 1 ≤ context.nSeqMax.toNat)
    {text : String}
    (tokens : (context.tokensOf text).length ≤ context.nBatch.toNat) :
    context.embed text =
      some (vectorOf embedding (context.tokensOf text)) := by
  have valid := valid_tokenizeText context text 0
  have only : ∀ item ∈ [context.tokenizeText text 0], Valid item := by
    intro item member
    rwa [List.mem_singleton.mp member]
  have written : (slotsIn [context.tokenizeText text 0]).length =
      (context.tokensOf text).length := by
    rw [length_slotsIn _ only]
    exact Nat.add_zero _
  have encoded := encodeChunk_eq lawful only (by norm_num) positive
    (written.trans_le tokens)
  have short : (context.tokensOf text).length < 2 ^ 31 := valid.short
  unfold Context.embed
  simp only
  split <;> rename_i kept
  · rw [show (context.tokenizeText text 0).tokens.length =
        (context.tokensOf text).length from rfl, toInt_of_lt short,
      Int.toNat_natCast, ← written, encoded]
    rfl
  · have untokenized : context.tokensOf text = [] :=
      valid.dropped (by simpa using kept)
    rw [untokenized]
    rfl

end

end Llama
end Provider
end Walkrie
