import VAttention.Allocator.CacheSpec

/-!
# From the model configuration to the cache specification

Model of the part of `ModelConfig` (`config.py`) that derives the cache geometry: the heads and
layers of one rank, the cache components, the bytes of a token and from them `CacheLayout`,
`VAttentionCacheSpec` and the size of a KV block.  Every step that can raise does so here: an
attribute that the HuggingFace configuration does not have, a division by zero, the checks of
the specifications.
-/

namespace VAttention.Allocator

open VAttention.Lib

/-- `a // b`. -/
def floorDiv (a b : Nat) : Except String Nat := do
  raiseIf (b == 0) "integer division or modulo by zero"
  pure (a / b)

/-- The attributes of a HuggingFace configuration that the geometry depends on.  An attribute
    that is missing is `none`. -/
structure PretrainedConfig where
  modelType : String
  numHiddenLayers : Nat
  hiddenSize : Nat
  numAttentionHeads : Option Nat
  headDim : Option Nat := none
  newDecoderArchitecture : Bool := false
  multiQuery : Bool := false
  nHeadKv : Option Nat := none
  numKvHeads : Option Nat := none
  numKeyValueHeads : Option Nat := none
  qLoraRank : Option Nat := none
  kvLoraRank : Option Nat := none
  qkNopeHeadDim : Option Nat := none
  qkRopeHeadDim : Option Nat := none
  vHeadDim : Option Nat := none

/-- `ParallelConfig`. -/
structure ParallelConfig where
  pipelineParallelSize : Nat
  tensorParallelSize : Nat

/-- `ModelConfig`. -/
structure ModelConfig where
  hfConfig : PretrainedConfig
  dtype : TorchDtype
  maxModelLen : Nat

/-- `MLAAttentionSpec`. -/
structure MLAAttentionSpec where
  qLoraRank : Option Nat
  kvLoraRank : Nat
  qkNopeHeadDim : Nat
  qkRopeHeadDim : Nat
  vHeadDim : Nat
  qHeadDim : Nat
  residentCacheDim : Nat

/-- `TensorParallelAttentionSpec`. -/
structure TensorParallelAttentionSpec where
  tensorParallelSize : Nat
  numQHeadsGlobal : Nat
  numQHeadsLocal : Nat
  numKvHeadsGlobal : Nat
  numKvHeadsLocal : Nat
  headSize : Nat

/-- `CacheLayout`. -/
structure CacheLayout where
  architecture : CacheArchitecture
  megacache : Bool
  cachedTokenBytesPerLayer : Nat
  cachedTokenBytesLocal : Nat
  pageBufferTokenBytes : Nat
  tokensPerPage : Nat

/-- `CacheComponentSpec(name, token_dim)`. -/
def CacheComponentSpec.new (name : String) (tokenDim : Nat) :
    Except String CacheComponentSpec := do
  CacheComponentSpec.postInit ⟨name, tokenDim⟩
  pure ⟨name, tokenDim⟩

namespace ModelConfig

variable (m : ModelConfig) (p : ParallelConfig)

/-! ## Heads and layers -/

/-- `hf_config.num_attention_heads` where the code reads it without asking first. -/
def numAttentionHeads : Except String Nat :=
  match m.hfConfig.numAttentionHeads with
  | some n => .ok n
  | none => .error "object has no attribute 'num_attention_heads'"

/-- `get_total_num_q_heads`. -/
def getTotalNumQHeads : Except String Nat :=
  match m.hfConfig.numAttentionHeads with
  | some n => .ok n
  | none => .error "num_attention_heads is not defined in the model config"

/-- `get_num_q_heads`. -/
def getNumQHeads : Except String Nat := do
  floorDiv (← m.getTotalNumQHeads) p.tensorParallelSize

/-- `get_head_size`. -/
def getHeadSize : Except String Nat :=
  match m.hfConfig.headDim with
  | some headDim => .ok headDim
  | none => do floorDiv m.hfConfig.hiddenSize (← m.numAttentionHeads)

def falconModelTypes : List String := ["falcon", "RefinedWeb", "RefinedWebModel"]

/-- One KV head for all queries.  A falcon model with the new decoder architecture ignores the
    `multi_query` flag. -/
def isMultiQuery : Bool :=
  let newDecoderArchFalcon :=
    falconModelTypes.contains m.hfConfig.modelType && m.hfConfig.newDecoderArchitecture
  !newDecoderArchFalcon && m.hfConfig.multiQuery

/-- The first attribute for the KV heads that is there, in the order of the code. -/
def kvHeadsAttribute : Option Nat :=
  m.hfConfig.nHeadKv <|> m.hfConfig.numKvHeads <|> m.hfConfig.numKeyValueHeads

/-- `get_total_num_kv_heads`. -/
def getTotalNumKvHeads : Except String Nat :=
  if m.isMultiQuery then .ok 1
  else
    match m.kvHeadsAttribute with
    | some n => .ok n
    | none => m.getTotalNumQHeads

/-- `get_num_kv_heads`.  A single KV head is not divided. -/
def getNumKvHeads : Except String Nat :=
  if m.isMultiQuery then .ok 1
  else
    match m.kvHeadsAttribute with
    | some n => floorDiv n p.tensorParallelSize
    | none => do floorDiv (← m.numAttentionHeads) p.tensorParallelSize

/-- `get_num_layers`. -/
def getNumLayers : Except String Nat :=
  floorDiv m.hfConfig.numHiddenLayers p.pipelineParallelSize

/-! ## Cache components -/

/-- `is_mla_model`. -/
def isMlaModel : Bool := m.hfConfig.kvLoraRank.isSome && m.hfConfig.qkRopeHeadDim.isSome

/-- `get_cache_architecture`. -/
def getCacheArchitecture : CacheArchitecture := if m.isMlaModel then .mla else .denseKv

/-- The getters of the MLA dimensions raise for an attribute that is not defined. -/
def mlaDimension (dimension : Option Nat) (name : String) : Except String Nat :=
  match dimension with
  | some n => .ok n
  | none => .error (name ++ " is not defined for this model")

/-- `get_mla_kv_lora_rank`. -/
def getMlaKvLoraRank : Except String Nat := mlaDimension m.hfConfig.kvLoraRank "kv_lora_rank"

/-- `get_mla_qk_nope_head_dim`. -/
def getMlaQkNopeHeadDim : Except String Nat :=
  mlaDimension m.hfConfig.qkNopeHeadDim "qk_nope_head_dim"

/-- `get_mla_qk_rope_head_dim`. -/
def getMlaQkRopeHeadDim : Except String Nat :=
  mlaDimension m.hfConfig.qkRopeHeadDim "qk_rope_head_dim"

/-- `get_mla_v_head_dim`. -/
def getMlaVHeadDim : Except String Nat := mlaDimension m.hfConfig.vHeadDim "v_head_dim"

/-- `get_mla_attention_spec`. -/
def getMlaAttentionSpec : Except String MLAAttentionSpec := do
  raiseIf (!m.isMlaModel) "MLA attention spec is only defined for MLA models"
  let kvLoraRank ← m.getMlaKvLoraRank
  let qkNopeHeadDim ← m.getMlaQkNopeHeadDim
  let qkRopeHeadDim ← m.getMlaQkRopeHeadDim
  let vHeadDim ← m.getMlaVHeadDim
  pure {
    qLoraRank := m.hfConfig.qLoraRank
    kvLoraRank, qkNopeHeadDim, qkRopeHeadDim, vHeadDim
    qHeadDim := qkNopeHeadDim + qkRopeHeadDim
    residentCacheDim := kvLoraRank + qkRopeHeadDim }

/-- `get_tensor_parallel_attention_spec`. -/
def getTensorParallelAttentionSpec : Except String TensorParallelAttentionSpec := do
  let numQHeadsGlobal ← m.getTotalNumQHeads
  let numQHeadsLocal ← m.getNumQHeads p
  let numKvHeadsGlobal ← m.getTotalNumKvHeads
  let numKvHeadsLocal ← m.getNumKvHeads p
  let headSize ← m.getHeadSize
  pure {
    tensorParallelSize := p.tensorParallelSize
    numQHeadsGlobal, numQHeadsLocal, numKvHeadsGlobal, numKvHeadsLocal, headSize }

/-- `get_cache_component_specs`. -/
def getCacheComponentSpecs : Except String (List CacheComponentSpec) :=
  match m.getCacheArchitecture with
  | .mla => do
    let mlaSpec ← m.getMlaAttentionSpec
    let kvLatent ← CacheComponentSpec.new "kv_latent" mlaSpec.kvLoraRank
    let kRope ← CacheComponentSpec.new "k_rope" mlaSpec.qkRopeHeadDim
    pure [kvLatent, kRope]
  | .denseKv => do
    let denseTokenDim := (← m.getNumKvHeads p) * (← m.getHeadSize)
    let k ← CacheComponentSpec.new "k" denseTokenDim
    let v ← CacheComponentSpec.new "v" denseTokenDim
    pure [k, v]

/-! ## Bytes of a token -/

/-- `get_resident_cache_token_dim`. -/
def getResidentCacheTokenDim : Except String Nat := do
  pure ((← m.getCacheComponentSpecs p).map (·.tokenDim)).sum

/-- `get_cached_token_bytes_per_layer`. -/
def getCachedTokenBytesPerLayer : Except String Nat := do
  pure (m.dtype.itemsize * (← m.getResidentCacheTokenDim p))

/-- `get_cached_token_bytes_local`. -/
def getCachedTokenBytesLocal : Except String Nat := do
  pure ((← m.getNumLayers p) * (← m.getCachedTokenBytesPerLayer p))

/-- `get_page_buffer_token_bytes`: what a token takes in one page.  An MLA page is sized for both
    components together, a dense one for the keys or the values. -/
def getPageBufferTokenBytes (megacache : Bool) : Except String Nat := do
  let perLayer ←
    match m.getCacheArchitecture with
    | .mla => m.getCachedTokenBytesPerLayer p
    | .denseKv => do pure ((← m.getNumKvHeads p) * (← m.getHeadSize) * m.dtype.itemsize)
  if megacache then pure ((← m.getNumLayers p) * perLayer) else pure perLayer

/-- `get_num_cached_tokens_per_page`. -/
def getNumCachedTokensPerPage (pageSize : Nat) (megacache : Bool) : Except String Nat := do
  floorDiv pageSize (← m.getPageBufferTokenBytes p megacache)

/-- `get_cache_layout`. -/
def getCacheLayout (pageSize : Nat) (megacache : Bool) : Except String CacheLayout := do
  let cachedTokenBytesPerLayer ← m.getCachedTokenBytesPerLayer p
  let cachedTokenBytesLocal ← m.getCachedTokenBytesLocal p
  let pageBufferTokenBytes ← m.getPageBufferTokenBytes p megacache
  let tokensPerPage ← m.getNumCachedTokensPerPage p pageSize megacache
  pure {
    architecture := m.getCacheArchitecture
    megacache
    cachedTokenBytesPerLayer
    cachedTokenBytesLocal
    pageBufferTokenBytes
    tokensPerPage }

/-! ## Specifications -/

/-- `self.get_mla_attention_spec() if is_mla else None`. -/
def mlaSpecIfMla : Except String (Option MLAAttentionSpec) :=
  match m.getCacheArchitecture with
  | .mla => some <$> m.getMlaAttentionSpec
  | .denseKv => pure none

/-- `get_vattention_cache_spec`.  The tensor-parallel record is built here, where that can raise,
    and then only passed through. -/
def getVattentionCacheSpec (pageSize : Nat) (megacache : Bool) :
    Except String VAttentionCacheSpec := do
  let layout ← m.getCacheLayout p pageSize megacache
  let mlaSpec ← m.mlaSpecIfMla
  let cacheComponents ← m.getCacheComponentSpecs p
  let _ ← m.getTensorParallelAttentionSpec p
  let numLayers ← m.getNumLayers p
  let numKvHeads ← m.getNumKvHeads p
  let headSize ← m.getHeadSize
  let spec : VAttentionCacheSpec := {
    architecture := layout.architecture
    megacache := layout.megacache
    pageSize
    tokensPerPage := layout.tokensPerPage
    cachedTokenBytesPerLayer := layout.cachedTokenBytesPerLayer
    cachedTokenBytesLocal := layout.cachedTokenBytesLocal
    pageBufferTokenBytes := layout.pageBufferTokenBytes
    dtypeSize := m.dtype.itemsize
    numLayers
    numKvHeads
    headSize
    cacheComponents
    mlaKvLoraRank := mlaSpec.map (·.kvLoraRank)
    mlaQkRopeHeadDim := mlaSpec.map (·.qkRopeHeadDim) }
  spec.postInit
  pure spec

/-- `get_vattention_init_spec`. -/
def getVattentionInitSpec (pageSize : Nat) (megacache : Bool) (maxBatchSize : Nat) :
    Except String VAttentionInitSpec := do
  let cacheSpec ← m.getVattentionCacheSpec p pageSize megacache
  let spec : VAttentionInitSpec := {
    cacheSpec, maxBatchSize, maxContextLength := m.maxModelLen, dtype := m.dtype }
  spec.postInit
  pure spec

/-- `get_vattention_pages_per_kvblock`. -/
def getVattentionPagesPerKvblock (megacache : Bool) : Except String Nat := do
  let numComponents := (← m.getCacheComponentSpecs p).length
  if megacache then pure numComponents else pure ((← m.getNumLayers p) * numComponents)

/-- `get_vattention_cache_block_size_bytes`. -/
def getVattentionCacheBlockSizeBytes (pageSize : Nat) (megacache : Bool) : Except String Nat := do
  pure (pageSize * (← m.getVattentionPagesPerKvblock p megacache))

/-! ## What the derivations agree on -/

theorem floorDiv_eq_ok {a b q : Nat} (h : floorDiv a b = .ok q) : q = a / b := by
  obtain ⟨⟨⟩, -, h⟩ := seq_eq_ok.mp h
  cases h
  rfl

variable {m p} {pageSize : Nat} {megacache : Bool}

/-- Both architectures have two cache components. -/
theorem getCacheComponentSpecs_length {components : List CacheComponentSpec}
    (h : m.getCacheComponentSpecs p = .ok components) : components.length = 2 := by
  unfold getCacheComponentSpecs at h
  split at h
  · obtain ⟨_, -, h⟩ := seq_eq_ok.mp h
    obtain ⟨_, -, h⟩ := seq_eq_ok.mp h
    obtain ⟨_, -, h⟩ := seq_eq_ok.mp h
    cases h
    rfl
  · obtain ⟨_, -, h⟩ := seq_eq_ok.mp h
    obtain ⟨_, -, h⟩ := seq_eq_ok.mp h
    obtain ⟨_, -, h⟩ := seq_eq_ok.mp h
    obtain ⟨_, -, h⟩ := seq_eq_ok.mp h
    cases h
    rfl

/-- The layout records the tokens per page of `get_num_cached_tokens_per_page`. -/
theorem getCacheLayout_tokensPerPage {layout : CacheLayout}
    (h : m.getCacheLayout p pageSize megacache = .ok layout) :
    m.getNumCachedTokensPerPage p pageSize megacache = .ok layout.tokensPerPage := by
  obtain ⟨_, -, h⟩ := seq_eq_ok.mp h
  obtain ⟨_, -, h⟩ := seq_eq_ok.mp h
  obtain ⟨_, -, h⟩ := seq_eq_ok.mp h
  obtain ⟨_, htpp, h⟩ := seq_eq_ok.mp h
  cases h
  exact htpp

/-- Where the fields of a cache specification come from. -/
structure Specifies (m : ModelConfig) (p : ParallelConfig) (pageSize : Nat) (megacache : Bool)
    (spec : VAttentionCacheSpec) : Prop where
  architecture : spec.architecture = m.getCacheArchitecture
  megacache_eq : spec.megacache = megacache
  pageSize_eq : spec.pageSize = pageSize
  tokensPerPage : m.getNumCachedTokensPerPage p pageSize megacache = .ok spec.tokensPerPage
  numLayers : m.getNumLayers p = .ok spec.numLayers
  numKvHeads : m.getNumKvHeads p = .ok spec.numKvHeads
  headSize : m.getHeadSize = .ok spec.headSize
  components : m.getCacheComponentSpecs p = .ok spec.cacheComponents
  checked : spec.postInit = .ok ()

theorem getVattentionCacheSpec_specifies {spec : VAttentionCacheSpec}
    (h : m.getVattentionCacheSpec p pageSize megacache = .ok spec) :
    m.Specifies p pageSize megacache spec := by
  obtain ⟨layout, hlayout, h⟩ := seq_eq_ok.mp h
  obtain ⟨_, -, h⟩ := seq_eq_ok.mp h
  obtain ⟨_, hcomponents, h⟩ := seq_eq_ok.mp h
  obtain ⟨_, -, h⟩ := seq_eq_ok.mp h
  obtain ⟨_, hlayers, h⟩ := seq_eq_ok.mp h
  obtain ⟨_, hheads, h⟩ := seq_eq_ok.mp h
  obtain ⟨_, hsize, h⟩ := seq_eq_ok.mp h
  obtain ⟨⟨⟩, hchecked, h⟩ := seq_eq_ok.mp h
  cases h
  have htpp := getCacheLayout_tokensPerPage hlayout
  -- the layout carries the architecture and the flag it was asked for
  obtain ⟨_, -, hlayout⟩ := seq_eq_ok.mp hlayout
  obtain ⟨_, -, hlayout⟩ := seq_eq_ok.mp hlayout
  obtain ⟨_, -, hlayout⟩ := seq_eq_ok.mp hlayout
  obtain ⟨_, -, hlayout⟩ := seq_eq_ok.mp hlayout
  cases hlayout
  exact ⟨rfl, rfl, rfl, htpp, hlayers, hheads, hsize, hcomponents, hchecked⟩

namespace Specifies

variable {spec : VAttentionCacheSpec}

/-- The pages of a KV block: one for each component, in every layer that has its own tensors. -/
theorem pagesPerKvblock (h : m.Specifies p pageSize megacache spec) :
    m.getVattentionPagesPerKvblock p megacache =
      .ok (if megacache then 2 else spec.numLayers * 2) := by
  unfold getVattentionPagesPerKvblock
  rw [h.components, h.numLayers]
  have hlen := getCacheComponentSpecs_length h.components
  cases megacache with
  | true => exact congrArg Except.ok hlen
  | false => exact congrArg (fun n => Except.ok (spec.numLayers * n)) hlen

/-- The tokens of a dense page, over the bytes of the keys of one token. -/
theorem dense_tokensPerPage (h : m.Specifies p pageSize megacache spec)
    (harch : m.getCacheArchitecture = .denseKv) :
    spec.tokensPerPage = pageSize /
      (if megacache then spec.numLayers * (spec.numKvHeads * spec.headSize * m.dtype.itemsize)
        else spec.numKvHeads * spec.headSize * m.dtype.itemsize) := by
  have htpp := h.tokensPerPage
  have hbytes : m.getPageBufferTokenBytes p megacache = .ok
      (if megacache then spec.numLayers * (spec.numKvHeads * spec.headSize * m.dtype.itemsize)
        else spec.numKvHeads * spec.headSize * m.dtype.itemsize) := by
    unfold getPageBufferTokenBytes
    rw [harch, h.numKvHeads, h.headSize, h.numLayers]
    cases megacache <;> rfl
  unfold getNumCachedTokensPerPage at htpp
  rw [hbytes] at htpp
  exact floorDiv_eq_ok htpp

end Specifies

end ModelConfig

end VAttention.Allocator
