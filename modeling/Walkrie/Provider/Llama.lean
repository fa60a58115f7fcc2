import Mathlib

/-!
# Embedding with llama.cpp

`embed_batch` packs texts into chunks, each encoded in one call as parallel
sequences.  A text has a place in the list it came in, a sequence id within its
chunk and a range of slots in the batch, and each is translated into the next
on the way in and out.  What the library does with a batch is given.  A write
beyond the slots of a batch, reading one that was not written and a sum that
does not fit an `int` have no defined result.
-/

namespace Walkrie
namespace Provider
namespace Llama

variable {Token φ : Type}

/-- `static_cast<int>`. -/
def toInt (value : Nat) : Int :=
  (value : Int).bmod (2 ^ 32)

/-- A sum of two `int`s. -/
def addInt (left right : Int) : Option Int :=
  if -2 ^ 31 ≤ left + right ∧ left + right < 2 ^ 31 then some (left + right)
  else none

/-- One slot of a `llama_batch`. -/
structure Slot (Token : Type) where
  token : Token
  pos : Nat
  seqId : Int
  nSeqId : Nat := 1
  logits : Bool := true

/-- What `llama_get_embeddings_seq` and `llama_get_embeddings_ith` return after
a successful `llama_encode`; `none` is a null pointer. -/
structure Encoded (φ : Type) where
  seq : Int → Option (List φ)
  ith : Nat → Option (List φ)

/-- The context of the provider: its limits, the prefix of the texts, and the
calls of the library.  `tokenize` returns its result and what it leaves in a
buffer of `n_ctx` tokens; `encode` is `none` when it fails.  The memory is
cleared before every `encode`, so what was encoded earlier does not matter. -/
structure Context (Token φ : Type) where
  nCtx : Nat
  nCtx_lt : nCtx < 2 ^ 31
  nSeqMax : UInt32
  nBatch : UInt32
  textPrefix : String
  tokenize : String → Int × Vector Token nCtx
  encode : List (Slot Token) → Option (Encoded φ)

/-- `LlamaTokenizedText`. -/
structure TokenizedText (Token : Type) where
  tokens : List Token := []
  originalIndex : Nat
  ok : Bool := false

/-- `LlamaBatch`: the slots that are allocated, `none` while nothing is written
to them, and the number of tokens. -/
structure Batch (Token : Type) where
  slots : List (Option (Slot Token))
  nTokens : Nat := 0

/-- `llama_batch_init`. -/
def Batch.init (allocated : Nat) : Batch Token :=
  { slots := List.replicate allocated none }

/-- One turn of the inner loop of `build_batch`; the cursor is the number of
tokens. -/
def Batch.write (batch : Batch Token) (slot : Slot Token) :
    Option (Batch Token) :=
  if batch.nTokens < batch.slots.length then
    some
      { slots := batch.slots.set batch.nTokens (some slot)
        nTokens := batch.nTokens + 1 }
  else none

/-- What the inner loop of `build_batch` writes for a text. -/
def slotsOf (seqId : Nat) (tokens : List Token) : List (Slot Token) :=
  (tokens.take (toInt tokens.length).toNat).zipIdx.map fun entry =>
    { token := entry.1, pos := entry.2, seqId := toInt seqId }

/-- The loop body of `build_batch`, for a text and its sequence id. -/
def Batch.add (batch : Batch Token) (entry : TokenizedText Token × Nat) :
    Option (Batch Token) :=
  if !entry.1.ok || entry.1.tokens.isEmpty then some batch
  else (slotsOf entry.2 entry.1.tokens).foldlM Batch.write batch

/-- `build_batch`. -/
def buildBatch (tokenized : List (TokenizedText Token))
    (batch : Batch Token) : Option (Batch Token) :=
  tokenized.zipIdx.foldlM Batch.add { batch with nTokens := 0 }

/-- The slots `llama_encode` reads. -/
def Batch.read (batch : Batch Token) : Option (List (Slot Token)) :=
  (batch.slots.take batch.nTokens).mapM id

/-- The embedding of a sequence, or that of its last token if there is
none. -/
def embeddingOf (encoded : Encoded φ) (slots : List (Slot Token))
    (seqId : Nat) (tokens : List Token) : Option (List φ) :=
  (encoded.seq (toInt seqId)).or
    ((slots.findIdx? fun slot =>
      slot.seqId = toInt seqId ∧
        (slot.pos : Int) = toInt tokens.length - 1).bind encoded.ith)

/-- `extract_embeddings`. -/
def extractEmbeddings (encoded : Encoded φ) (slots : List (Slot Token))
    (tokenized : List (TokenizedText Token)) : List (List φ) :=
  tokenized.zipIdx.map fun entry =>
    if !entry.1.ok then []
    else (embeddingOf encoded slots entry.2 entry.1.tokens).getD []

namespace Context

variable (context : Context Token φ)

/-- The loop body of `tokenize_batch`. -/
def tokenizeText (text : String) (originalIndex : Nat) :
    TokenizedText Token :=
  let (nTokens, buffer) := context.tokenize (context.textPrefix ++ text)
  if nTokens < 0 ∨ context.nCtx < nTokens then { originalIndex }
  else
    { tokens := buffer.toList.take nTokens.toNat
      originalIndex
      ok := true }

/-- `tokenize_batch`. -/
def tokenizeBatch (texts : List String) : List (TokenizedText Token) :=
  texts.zipIdx.map fun entry => context.tokenizeText entry.1 entry.2

/-- Allocate, build and encode a batch, and extract the embeddings; `none`
inside if `llama_encode` fails. -/
def encodeChunk (tokenized : List (TokenizedText Token)) (allocated : Nat) :
    Option (Option (List (List φ))) :=
  (buildBatch tokenized (Batch.init allocated)).bind fun batch =>
    batch.read.map fun slots =>
      (context.encode slots).map fun encoded =>
        extractEmbeddings encoded slots tokenized

/-- `embed`. -/
def embed (text : String) : Option (List φ) :=
  let item := context.tokenizeText text 0
  if item.ok then
    (context.encodeChunk [item] (toInt item.tokens.length).toNat).map
      fun results => (results.getD []).headD []
  else some []

/-- `max_seq_per_chunk`. -/
def maxSeqPerChunk : Int := max 1 (toInt context.nSeqMax.toNat)

/-- `max_tokens_per_chunk`. -/
def maxTokensPerChunk : Int := toInt context.nBatch.toNat

end Context

/-- The variables of `embed_batch`, and the chunks it has encoded, each with
the number of slots that were allocated for it. -/
structure Chunking (Token φ : Type) where
  results : List (List φ)
  chunk : List (TokenizedText Token) := []
  chunkTokens : Int := 0
  encoded : List (List (TokenizedText Token) × Int) := []

namespace Context

variable (context : Context Token φ)

/-- `flush_chunk`. -/
def flushChunk (state : Chunking Token φ) : Option (Chunking Token φ) :=
  if state.chunk.isEmpty then some state
  else
    (context.encodeChunk state.chunk state.chunkTokens.toNat).map
      fun chunkResults =>
        -- If `llama_encode` fails, the results of the chunk stay empty.
        { results := (state.chunk.zip (chunkResults.getD [])).foldl
            (fun results entry => results.set entry.1.originalIndex entry.2)
            state.results
          encoded := state.encoded ++ [(state.chunk, state.chunkTokens)] }

/-- Whether a text does not fit the chunk any more.  Nothing is added up for a
chunk that is empty. -/
def overflows (state : Chunking Token φ) (nToks : Int) : Option Bool :=
  if state.chunk.isEmpty then some false
  else
    (addInt state.chunkTokens nToks).map fun total =>
      context.maxTokensPerChunk < total ||
        context.maxSeqPerChunk ≤ toInt state.chunk.length

/-- The loop body of `embed_batch`. -/
def addText (state : Chunking Token φ) (item : TokenizedText Token) :
    Option (Chunking Token φ) :=
  let nToks := toInt item.tokens.length
  if !item.ok || item.tokens.isEmpty then some state
  -- The text alone exceeds the limit and is dropped.
  else if context.maxTokensPerChunk < nToks then some state
  else
    (context.overflows state nToks).bind fun full =>
      (if full then context.flushChunk state else some state).bind
        fun state =>
          (addInt state.chunkTokens nToks).map fun chunkTokens =>
            { state with chunk := state.chunk ++ [item], chunkTokens }

/-- The loops of `embed_batch`. -/
def chunking (texts : List String) : Option (Chunking Token φ) :=
  ((context.tokenizeBatch texts).foldlM context.addText
      { results := List.replicate texts.length [] }).bind
    context.flushChunk

/-- `embed_batch`. -/
def embedBatch (texts : List String) : Option (List (List φ)) :=
  if texts.isEmpty then some []
  else (context.chunking texts).map Chunking.results

end Context

end Llama
end Provider
end Walkrie
