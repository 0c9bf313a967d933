import Mathlib.Tactic.SplitIfs
import VAttention.Core.Sequence
import VAttention.Lib.Checks
import VAttention.Mla.Model

/-!
# The MLA path of the FlashAttention wrapper

Model of `VAttentionFlashAttentionWrapper.forward_mla` and of the component cache it reads and
writes.  One call serves several sequences, whose tokens are packed one sequence after another:
prefill chunks first, then one token for each decode.  For every sequence the wrapper reads the
rows that are cached so far, writes the new ones behind them, reconstructs keys and values from
both, and runs `flash_attn_func` on them.

The state of the cache after an exception is not modelled.
-/

namespace VAttention.Mla

open Matrix VAttention.Core VAttention.Lib VAttention.Lib.Blocks

variable {R : Type} {dims : MlaDims} {n batchSize maxSeqLen : Nat}

/-! ## FlashAttention -/

/-- `flash_attn_func` on one head and one query: every column of the output depends on the same
    column of the values only, so the output for some columns of the values is these columns of the
    output. -/
structure FlashAttention (R : Type) (q : Nat) where
  attend : (d : Nat) → Row R q → List (Row R q × Row R d) → Row R d
  attend_comp : ∀ {d d' : Nat} (f : Fin d → Fin d') (query : Row R q)
    (kvs : List (Row R q × Row R d')),
    attend d query (kvs.map fun kv => (kv.1, kv.2 ∘ f)) = attend d' query kvs ∘ f

/-- `flash_attn_func(query, key, value, causal=True)`: the causal mask is aligned to the bottom
    right, so the last query sees every source. -/
def flashAttnFunc {q d : Nat} (flash : FlashAttention R q) (query key : List (Fin n → Row R q))
    (value : List (Fin n → Row R d)) : List (Fin n → Row R d) :=
  causalAttention (flash.attend d) (key.length - query.length) query key value

/-- One token of `torch.nn.functional.pad(value, (0, target_head_dim - value_head_dim))`. -/
def padHeads [Zero R] {d : Nat} (targetHeadDim : Nat) (row : Fin n → Row R d) :
    Fin n → Row R targetHeadDim :=
  fun head j => if h : j < d then row head ⟨j, h⟩ else 0

/-- `_pad_value_heads_for_flash_attention`. -/
def padValueHeadsForFlashAttention [Zero R] {d : Nat} (value : List (Fin n → Row R d))
    (targetHeadDim : Nat) : Except PyError (List (Fin n → Row R targetHeadDim)) :=
  if d > targetHeadDim then
    .error (.valueError "value head_dim must not exceed flash-attention target head_dim")
  else
    .ok (value.map (padHeads targetHeadDim))

/-- `_trim_flash_attention_output`. -/
def trimFlashAttentionOutput {d : Nat} (output : List (Fin n → Row R d)) (valueHeadDim : Nat) :
    Except PyError (List (Fin n → Row R valueHeadDim)) :=
  if h : valueHeadDim ≤ d then
    .ok (output.map fun row head j => row head (Fin.castLE h j))
  else
    .error (.valueError "value_head_dim must not exceed flash-attention output head_dim")

/-- Trimming undoes padding. -/
theorem padHeads_comp_castLE [Zero R] {d t : Nat} (h : d ≤ t) (row : Fin n → Row R d)
    (head : Fin n) : padHeads t row head ∘ Fin.castLE h = row head := by
  ext j
  exact dif_pos j.isLt

/-- Attention to padded values, trimmed, is attention to the values. -/
theorem attend_padHeads [Zero R] {q d t : Nat} (flash : FlashAttention R q) (h : d ≤ t)
    (query : Row R q) (key : List (Fin n → Row R q)) (value : List (Fin n → Row R d)) (head : Fin n)
    (k : Nat) :
    flash.attend t query
        (((key.zip (value.map (padHeads t))).take k).map fun kv => (kv.1 head, kv.2 head)) ∘
          Fin.castLE h =
      flash.attend d query (((key.zip value).take k).map fun kv => (kv.1 head, kv.2 head)) := by
  rw [← flash.attend_comp, List.zip_map_right, ← List.map_take, List.map_map, List.map_map]
  simp only [Function.comp_def, Prod.map, id]
  congr 1
  refine List.map_congr_left fun kv _ => ?_
  exact congrArg _ (padHeads_comp_castLE h kv.2 head)

/-- **Padding and trimming cancel** where the values are not wider than the target. -/
theorem trim_flashAttnFunc_pad [Zero R] {q d t : Nat} (flash : FlashAttention R q) (h : d ≤ t)
    (query key : List (Fin n → Row R q)) (value : List (Fin n → Row R d)) :
    trimFlashAttentionOutput (flashAttnFunc flash query key (value.map (padHeads t))) d =
      .ok (flashAttnFunc flash query key value) := by
  rw [trimFlashAttentionOutput, dif_pos h]
  simp only [flashAttnFunc, causalAttention, List.map_map]
  refine congrArg Except.ok (List.map_congr_left fun p _ => funext fun head => ?_)
  exact attend_padHeads flash h (p.1 head) key value head _

/-! ## The component cache -/

/-- `DeepseekV2ComponentMLAKVCache` of shape `[batch_size, max_seq_len]`. -/
@[ext]
structure ComponentMlaKvCache (R : Type) (dims : MlaDims) (batchSize maxSeqLen : Nat) where
  kvLatent : Fin batchSize → Fin maxSeqLen → Row R dims.kvLoraRank
  kRope : Fin batchSize → Fin maxSeqLen → Row R dims.qkRopeHeadDim

/-- The first `seqLen` rows of a batch index. -/
def ComponentMlaKvCache.rows (kvCache : ComponentMlaKvCache R dims batchSize maxSeqLen)
    (batchIdx : Fin batchSize) (seqLen : Nat) : ResidentCache R dims where
  kvLatent := (List.ofFn (kvCache.kvLatent batchIdx)).take seqLen
  kRope := (List.ofFn (kvCache.kRope batchIdx)).take seqLen
  length_eq := by simp only [List.length_take, List.length_ofFn]

/-- `read_component_mla_kv_cache`. -/
def readComponentMlaKvCache (kvCache : ComponentMlaKvCache R dims batchSize maxSeqLen)
    (batchIdx seqLen : Nat) : Except PyError (Option (ResidentCache R dims)) :=
  if seqLen = 0 then .ok none
  else if h : batchIdx < batchSize then .ok (some (kvCache.rows ⟨batchIdx, h⟩ seqLen))
  else .error .indexError

/-- `rows[token_offset:next_offset].copy_(source)`. -/
def copyRows {d : Nat} (rows : Fin maxSeqLen → Row R d) (tokenOffset : Nat) (source : Rows R d) :
    Fin maxSeqLen → Row R d :=
  fun p => if tokenOffset ≤ p then source[p - tokenOffset]?.getD (rows p) else rows p

/-- The cache with the rows of `residentCache` from `tokenOffset` on. -/
def ComponentMlaKvCache.put (kvCache : ComponentMlaKvCache R dims batchSize maxSeqLen)
    (batchIdx : Fin batchSize) (tokenOffset : Nat) (residentCache : ResidentCache R dims) :
    ComponentMlaKvCache R dims batchSize maxSeqLen where
  kvLatent := Function.update kvCache.kvLatent batchIdx
    (copyRows (kvCache.kvLatent batchIdx) tokenOffset residentCache.kvLatent)
  kRope := Function.update kvCache.kRope batchIdx
    (copyRows (kvCache.kRope batchIdx) tokenOffset residentCache.kRope)

/-- `write_component_mla_kv_cache`: `copy_` wants as many rows as the slice has, but broadcasts a
    single row, so a single row for an empty slice is dropped. -/
def writeComponentMlaKvCache (kvCache : ComponentMlaKvCache R dims batchSize maxSeqLen)
    (batchIdx tokenOffset : Nat) (residentCache : ResidentCache R dims) :
    Except PyError (ComponentMlaKvCache R dims batchSize maxSeqLen) :=
  let nextOffset := tokenOffset + residentCache.numTokens
  let sliceLen := min nextOffset maxSeqLen - min tokenOffset maxSeqLen
  if h : batchIdx < batchSize then
    if sliceLen = residentCache.numTokens ∨ residentCache.numTokens = 1 then
      .ok (kvCache.put ⟨batchIdx, h⟩ tokenOffset residentCache)
    else
      .error (.runtimeError "The size of the tensors must match at non-singleton dimension 0")
  else .error .indexError

theorem writeComponentMlaKvCache_eq_ok
    {kvCache : ComponentMlaKvCache R dims batchSize maxSeqLen} {batchIdx : Fin batchSize}
    {tokenOffset : Nat} {residentCache : ResidentCache R dims}
    (h : tokenOffset + residentCache.numTokens ≤ maxSeqLen) :
    writeComponentMlaKvCache kvCache batchIdx tokenOffset residentCache =
      .ok (kvCache.put batchIdx tokenOffset residentCache) := by
  have hslice : min (tokenOffset + residentCache.numTokens) maxSeqLen - min tokenOffset maxSeqLen =
      residentCache.numTokens := by omega
  rw [writeComponentMlaKvCache, dif_pos batchIdx.isLt, if_pos (.inl hslice)]

/-- The rows behind the offset are the copied ones. -/
theorem take_ofFn_copyRows {d : Nat} (rows : Fin maxSeqLen → Row R d) {tokenOffset : Nat}
    {source : Rows R d} (h : tokenOffset + source.length ≤ maxSeqLen) :
    (List.ofFn (copyRows rows tokenOffset source)).take (tokenOffset + source.length) =
      (List.ofFn rows).take tokenOffset ++ source := by
  apply List.ext_getElem
  · simp only [List.length_take, List.length_ofFn, List.length_append]
    omega
  · intro p hp hp'
    have hlt : p < tokenOffset + source.length := by
      rw [List.length_take] at hp
      omega
    simp only [List.getElem_take, List.getElem_ofFn, copyRows, List.getElem_append,
      List.length_take, List.length_ofFn, Nat.min_eq_left (show tokenOffset ≤ maxSeqLen by omega)]
    split_ifs with hoff hbefore hbefore
    · omega
    · rw [List.getElem?_eq_getElem (by omega), Option.getD_some]
    · rfl
    · omega

/-- **Writing appends**: the rows written so far, and the new ones behind them. -/
theorem ComponentMlaKvCache.rows_put (kvCache : ComponentMlaKvCache R dims batchSize maxSeqLen)
    (batchIdx : Fin batchSize) {tokenOffset : Nat} {residentCache : ResidentCache R dims}
    (h : tokenOffset + residentCache.numTokens ≤ maxSeqLen) :
    (kvCache.put batchIdx tokenOffset residentCache).rows batchIdx
        (tokenOffset + residentCache.numTokens) =
      appendResidentCache (some (kvCache.rows batchIdx tokenOffset)) residentCache := by
  apply ResidentCache.ext
  · simp only [rows, put, Function.update_self, appendResidentCache]
    exact take_ofFn_copyRows _ h
  · simp only [rows, put, Function.update_self, appendResidentCache]
    rw [ResidentCache.numTokens, residentCache.length_eq] at h ⊢
    exact take_ofFn_copyRows _ h

/-! ## Packed resident rows -/

/-- Rows `start` up to `stop` of a resident cache. -/
def ResidentCache.slice (cache : ResidentCache R dims) (start stop : Nat) :
    ResidentCache R dims where
  kvLatent := (cache.kvLatent.drop start).take (stop - start)
  kRope := (cache.kRope.drop start).take (stop - start)
  length_eq := by simp only [List.length_take, List.length_drop, cache.length_eq]

/-- The loop of `_split_resident_cache_by_lengths`: the chunks, and the offset behind them. -/
def splitFrom (cache : ResidentCache R dims) : Nat → List Nat → List (ResidentCache R dims) × Nat
  | tokenOffset, [] => ([], tokenOffset)
  | tokenOffset, length :: lengths =>
    let nextOffset := tokenOffset + length
    let (chunks, lastOffset) := splitFrom cache nextOffset lengths
    (cache.slice tokenOffset nextOffset :: chunks, lastOffset)

/-- `_split_resident_cache_by_lengths` on a cache. -/
def splitByLengths (cache : ResidentCache R dims) (lengths : List Nat) :
    Except PyError (List (ResidentCache R dims)) :=
  let (chunks, tokenOffset) := splitFrom cache 0 lengths
  if tokenOffset ≠ cache.numTokens then
    .error (.valueError "resident cache token count does not match wrapper metadata lengths")
  else .ok chunks

/-- `_split_resident_cache_by_lengths`. -/
def splitResidentCacheByLengths (cache : Option (ResidentCache R dims)) (lengths : List Nat) :
    Except PyError (List (Option (ResidentCache R dims))) :=
  match cache with
  | none => .ok (lengths.map fun _ => none)
  | some cache => (splitByLengths cache lengths).map fun chunks => chunks.map some

/-! ## `forward_mla` -/

/-- The attributes of the wrapper that `begin_forward` and `set_batch_idx` leave. -/
structure MlaMetadata where
  isMetadataInitialized : Bool
  isProfilingIteration : Bool
  prefillQueryLens : List Nat
  prefillCacheLens : List Nat
  decodeCacheLens : Option (List Nat)
  batchIndex : Option (List Nat)
  batchIndexGen : Option (List Nat)
  deriving DecidableEq, Repr

/-- The runtime KV cache of the inputs after `resolve_layer_cache`: a component cache, or resident
    rows that are passed along. -/
inductive RuntimeKvCache (R : Type) (dims : MlaDims) (batchSize maxSeqLen : Nat) where
  | component (kvCache : ComponentMlaKvCache R dims batchSize maxSeqLen)
  | resident (pastResidentCache : Option (ResidentCache R dims))

/-- `DeepseekV2MLAWrapperInputs`; queries and new rows are projected from the same tokens. -/
structure MlaWrapperInputs (R : Type) (dims : MlaDims) (n : Nat) where
  query : List (Fin n → Row R dims.qHeadDim)
  kvUpProj : Matrix (Fin dims.kvLoraRank) (Fin (n * (dims.qkNopeHeadDim + dims.vHeadDim))) R
  newResidentCache : ResidentCache R dims
  length_eq : query.length = newResidentCache.numTokens

/-- What the loop of `forward_mla` knows about one sequence. -/
structure MlaEntry (R : Type) (dims : MlaDims) where
  queryLen : Nat
  pastLen : Nat
  batchIdx : Option Nat
  pastCache : Option (ResidentCache R dims)
  currentCache : ResidentCache R dims

/-- The state of the loop: the runtime cache, the rows written to `output` and their number. -/
structure MlaLoopState (R : Type) (dims : MlaDims) (n batchSize maxSeqLen : Nat) where
  kvCache : RuntimeKvCache R dims batchSize maxSeqLen
  output : Rows R (n * dims.vHeadDim)
  tokenOffset : Nat

/-- The write to the component cache for one sequence. -/
def writeEntry (kvCache : RuntimeKvCache R dims batchSize maxSeqLen) (entry : MlaEntry R dims) :
    Except PyError (RuntimeKvCache R dims batchSize maxSeqLen) :=
  match kvCache, entry.batchIdx with
  | .component kvCache, some batchIdx =>
    (writeComponentMlaKvCache kvCache batchIdx entry.pastLen entry.currentCache).map .component
  | kvCache, _ => .ok kvCache

variable [CommRing R]

/-- One iteration of the loop of `forward_mla`. -/
def forwardMlaEntry (flash : FlashAttention R dims.qHeadDim) (inputs : MlaWrapperInputs R dims n)
    (s : MlaLoopState R dims n batchSize maxSeqLen) (entry : MlaEntry R dims) :
    Except PyError (MlaLoopState R dims n batchSize maxSeqLen) := do
  let kvCache ← writeEntry s.kvCache entry
  let fullCache := appendResidentCache entry.pastCache entry.currentCache
  let (key, value) := reconstructDenseKv fullCache inputs.kvUpProj
  let seqQuery := (inputs.query.drop s.tokenOffset).take entry.queryLen
  let seqValue ← padValueHeadsForFlashAttention value dims.qHeadDim
  let seqOutput := flashAttnFunc flash seqQuery key seqValue
  let seqOutput ← trimFlashAttentionOutput seqOutput dims.vHeadDim
  -- `seq_output.reshape(query_len, -1)` of no tokens
  raiseIf (entry.queryLen == 0) (.runtimeError "cannot reshape tensor of 0 elements")
  .ok { kvCache, output := s.output ++ seqOutput.map ungroup
        tokenOffset := s.tokenOffset + entry.queryLen }

/-- The sequences of a call: the five lists that the loop of `forward_mla` zips. -/
def forwardMlaEntries (metadata : MlaMetadata) (inputs : MlaWrapperInputs R dims n)
    (kvCache : RuntimeKvCache R dims batchSize maxSeqLen) :
    Except PyError (List (MlaEntry R dims)) := do
  let decodeCacheLens := metadata.decodeCacheLens.getD []
  let queryLens := metadata.prefillQueryLens ++ decodeCacheLens.map fun _ => 1
  let pastLens := metadata.prefillCacheLens ++ decodeCacheLens
  let currentCacheChunks ← splitByLengths inputs.newResidentCache queryLens
  match kvCache with
  | .component kvCache =>
    let allBatchIndices :=
      (metadata.batchIndex.getD []).take metadata.prefillQueryLens.length ++
        metadata.batchIndexGen.getD []
    let pastCacheChunks ← (allBatchIndices.zip pastLens).mapM fun (batchIdx, pastLen) =>
      readComponentMlaKvCache kvCache batchIdx pastLen
    .ok ((queryLens.zip (pastLens.zip (allBatchIndices.zip
      (pastCacheChunks.zip currentCacheChunks)))).map
        fun (queryLen, pastLen, batchIdx, pastCache, currentCache) =>
          { queryLen, pastLen, batchIdx := some batchIdx, pastCache, currentCache })
  | .resident pastResidentCache =>
    let pastCacheChunks ← splitResidentCacheByLengths pastResidentCache pastLens
    .ok ((queryLens.zip (pastLens.zip (pastCacheChunks.zip currentCacheChunks))).map
      fun (queryLen, pastLen, pastCache, currentCache) =>
        { queryLen, pastLen, batchIdx := none, pastCache, currentCache })

/-- `forward_mla`.  A row of the output that is never written is `none`. -/
def forwardMla (flash : FlashAttention R dims.qHeadDim) (metadata : MlaMetadata)
    (inputs : MlaWrapperInputs R dims n) (kvCache : RuntimeKvCache R dims batchSize maxSeqLen) :
    Except PyError
      (List (Option (Row R (n * dims.vHeadDim))) × RuntimeKvCache R dims batchSize maxSeqLen) := do
  assertThat metadata.isMetadataInitialized (.assertionError "Metadata is not initialized.")
  if metadata.isProfilingIteration then
    .ok (inputs.query.map fun _ => some 0, kvCache)
  else
    let entries ← forwardMlaEntries metadata inputs kvCache
    let s ← entries.foldlM (forwardMlaEntry flash inputs) ⟨kvCache, [], 0⟩
    .ok (s.output.map some ++ List.replicate (inputs.query.length - s.output.length) none,
      s.kvCache)

end VAttention.Mla
