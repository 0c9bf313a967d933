import Mathlib.Algebra.BigOperators.Group.List.Basic
import VAttention.Allocator.State
import VAttention.Lib.Checks

/-!
# From the cache specification to the allocator's configuration

`VAttentionCacheSpec` and `VAttentionInitSpec` (`config.py`) check a cache geometry and
hand it to the C++ extension, which sizes the virtual buffers (`init_kv_block_size`,
`init_buffer_sizes`) and creates one virtual tensor per component (`vtensor.h`).  Dense
caches go through the legacy entry point, MLA caches through the component one.

Sizes are `Nat`: the checks reject negative values together with zero.
-/

namespace VAttention.Allocator

open VAttention.Lib

/-- `CacheArchitecture`. -/
inductive CacheArchitecture where
  | denseKv
  | mla
  deriving DecidableEq, Repr

/-- `CacheComponentSpec`. -/
structure CacheComponentSpec where
  name : String
  tokenDim : Nat
  deriving DecidableEq, Repr

/-- `CacheComponentSpec.__post_init__`. -/
def CacheComponentSpec.postInit (c : CacheComponentSpec) : Except String Unit := do
  raiseIf (c.name == "") "Cache component name must be non-empty"
  raiseIf (c.tokenDim == 0) "Cache component token_dim must be positive"

/-- `VAttentionCacheSpec`, without the tensor-parallel attention record, which is only
    passed through. -/
structure VAttentionCacheSpec where
  architecture : CacheArchitecture
  megacache : Bool
  pageSize : Nat
  tokensPerPage : Nat
  cachedTokenBytesPerLayer : Nat
  cachedTokenBytesLocal : Nat
  pageBufferTokenBytes : Nat
  dtypeSize : Nat
  numLayers : Nat
  numKvHeads : Nat
  headSize : Nat
  cacheComponents : List CacheComponentSpec
  mlaKvLoraRank : Option Nat
  mlaQkRopeHeadDim : Option Nat

/-- `VAttentionCacheSpec.__post_init__`; the components were checked when they were built. -/
def VAttentionCacheSpec.postInit (s : VAttentionCacheSpec) : Except String Unit := do
  s.cacheComponents.forM CacheComponentSpec.postInit
  raiseIf (s.pageSize == 0) "page_size must be positive"
  raiseIf (s.tokensPerPage == 0) "tokens_per_page must be positive"
  raiseIf (s.cachedTokenBytesPerLayer == 0) "cached_token_bytes_per_layer must be positive"
  raiseIf (s.cachedTokenBytesLocal == 0) "cached_token_bytes_local must be positive"
  raiseIf (s.pageBufferTokenBytes == 0) "page_buffer_token_bytes must be positive"
  raiseIf (s.dtypeSize == 0) "dtype_size must be positive"
  raiseIf (s.numLayers == 0) "num_layers must be positive"
  raiseIf (s.numKvHeads == 0) "num_kv_heads must be positive"
  raiseIf (s.headSize == 0) "head_size must be positive"
  raiseIf s.cacheComponents.isEmpty "cache_components must be non-empty"
  raiseIf ((s.cacheComponents.map (·.tokenDim)).sum * s.dtypeSize != s.cachedTokenBytesPerLayer)
    "cache_components do not match cached_token_bytes_per_layer"
  raiseIf (s.pageSize < s.pageBufferTokenBytes) "page_buffer_token_bytes cannot exceed page_size"
  raiseIf (s.tokensPerPage != s.pageSize / s.pageBufferTokenBytes)
    "tokens_per_page does not match page_size and page_buffer_token_bytes"
  match s.architecture with
  | .mla =>
    raiseIf (s.mlaKvLoraRank.isNone || s.mlaQkRopeHeadDim.isNone)
      "MLA cache spec requires MLA dimensions"
  | .denseKv =>
    raiseIf (s.mlaKvLoraRank.isSome || s.mlaQkRopeHeadDim.isSome)
      "Dense KV cache spec cannot carry MLA dimensions"

/-- A `torch.dtype`: its name and the size of an element. -/
structure TorchDtype where
  name : String
  itemsize : Nat
  itemsize_pos : 0 < itemsize

/-- `VAttentionInitSpec`; the device index is only passed through. -/
structure VAttentionInitSpec where
  cacheSpec : VAttentionCacheSpec
  maxBatchSize : Nat
  maxContextLength : Nat
  dtype : TorchDtype

/-- `VAttentionInitSpec.__post_init__`. -/
def VAttentionInitSpec.postInit (spec : VAttentionInitSpec) : Except String Unit := do
  spec.cacheSpec.postInit
  raiseIf (spec.maxBatchSize == 0) "max_batch_size must be positive"
  raiseIf (spec.maxContextLength == 0) "max_context_length must be positive"

/-! ## Sizing in the extension -/

def kilobyte : Nat := 1024

/-- The page sizes that `do_cuda_init` accepts: three with the UVM driver, one with the
    default one. -/
def supportedPageSizes : List Nat :=
  [64 * kilobyte, 128 * kilobyte, 256 * kilobyte, 2 * kilobyte * kilobyte]

theorem dvd_of_mem_supportedPageSizes {n : Nat} (h : n ∈ supportedPageSizes) : n ∣ u64Size := by
  simp only [supportedPageSizes, kilobyte, List.mem_cons, List.not_mem_nil, or_false] at h
  rcases h with rfl | rfl | rfl | rfl <;> decide

/-- `init_kv_block_size`, `init_buffer_sizes` and `check_kvcache_config` on the values the
    two entry points have stored.  `init_buffer_sizes` divides by `tokens_per_page`. -/
def mkConfig (numLayers maxBatchSize maxContextLength pageSize tokensPerPage : Nat)
    (megacache : Bool) : Except String Config :=
  if hpage : pageSize ∈ supportedPageSizes then
    if htpp : 0 < tokensPerPage then
      if hlayers : 0 < numLayers then
        .ok {
          numLayers, maxBatchSize, maxContextLength, pageSize, tokensPerPage
          megacacheEnabled := megacache
          numLayers_pos := hlayers
          pageSize_dvd := dvd_of_mem_supportedPageSizes hpage
          tokensPerPage_pos := htpp }
      else .error "Invalid kv cache configuration..."
    else .error "division by zero"
  else .error "assertion failed: page_size"

/-- A virtual tensor: contiguous strides over `shape`, backed by `storageBytes` bytes of
    reserved address space. -/
structure VTensor where
  shape : List Nat
  itemsize : Nat
  storageBytes : Nat

/-- `ROUND_UP`. -/
def roundUp (x y : Nat) : Nat := (x + y - 1) / y * y

/-- `_alloc_vtensor` with `VirtualTensorAllocator.allocate`. -/
def allocVtensor (shape : List Nat) (pageSize minRequestBytes itemsize : Nat) :
    Except String VTensor := do
  let batchSize := shape.headD 0
  raiseIf (batchSize == 0) "vtensor shape must include a positive batch dimension"
  let logicalSizeBytes := shape.prod * itemsize
  let perRequestBytes := roundUp (max (logicalSizeBytes / batchSize) minRequestBytes) pageSize
  let sizeBytes := max (perRequestBytes * batchSize % u64Size) (pageSize * batchSize)
  raiseIf (sizeBytes % batchSize != 0) "size_bytes is not divisible by batch size"
  raiseIf (sizeBytes / batchSize % pageSize != 0) "request stride is not a multiple of page_size"
  raiseIf (2 ^ 60 ≤ sizeBytes) "CUDA out of memory. Tried to allocate more than 1EB memory."
  raiseIf (sizeBytes == 0) "can't allocate 0 sized tensor..."
  pure { shape, itemsize, storageBytes := sizeBytes }

/-- What initialisation leaves behind: the configuration globals and the component
    tensors, those of the first component (`k_tensors`) before those of the second. -/
structure Setup where
  cfg : Config
  tensors : List VTensor

/-- One tensor of each shape for every separately mapped layer. -/
def allocComponentTensors (cfg : Config) (itemsize : Nat) (kShape vShape : List Nat) :
    Except String Setup := do
  let kTensor ← allocVtensor kShape cfg.pageSize cfg.virtBuffSizePerReq itemsize
  let vTensor ← allocVtensor vShape cfg.pageSize cfg.virtBuffSizePerReq itemsize
  pure { cfg, tensors := cfg.layers.map (fun _ => kTensor) ++ cfg.layers.map (fun _ => vTensor) }

/-- `init_kvcache` followed by `init_kvcache_virtual`: the dense path.  The extension
    recomputes the tokens per page from the head geometry. -/
def initKvcache (numLayers numKvHeads headSize maxBatchSize maxContextLength pageSize : Nat)
    (dtype : TorchDtype) (megacache : Bool) : Except String Setup := do
  let tokenBytes := numKvHeads * headSize * dtype.itemsize
  let tokensPerPage := pageSize / (if megacache then tokenBytes * numLayers else tokenBytes)
  let cfg ← mkConfig numLayers maxBatchSize maxContextLength pageSize tokensPerPage megacache
  let shape :=
    if megacache then [maxBatchSize, maxContextLength, numLayers, numKvHeads, headSize]
    else [maxBatchSize, maxContextLength, numKvHeads, headSize]
  allocComponentTensors cfg dtype.itemsize shape shape

/-- `parse_scalar_type`: size of an element of the parsed type. -/
def parseScalarType (dtypeName : String) : Except String Nat :=
  if dtypeName == "float16" || dtypeName == "half" then .ok 2
  else if dtypeName == "bfloat16" then .ok 2
  else if dtypeName == "float32" || dtypeName == "float" then .ok 4
  else .error ("Unsupported dtype for component-spec initialization: " ++ dtypeName)

/-- `init_kvcache_component_spec` followed by `init_kvcache_component_spec_virtual`. -/
def initKvcacheComponentSpec (spec : VAttentionInitSpec) : Except String Setup := do
  let s := spec.cacheSpec
  let itemsize ← parseScalarType spec.dtype.name
  match s.cacheComponents with
  | [c₀, c₁] =>
    let tokensPerPage :=
      if s.tokensPerPage = 0 then s.pageSize / s.pageBufferTokenBytes else s.tokensPerPage
    let cfg ← mkConfig s.numLayers spec.maxBatchSize spec.maxContextLength s.pageSize
      tokensPerPage s.megacache
    let shape (tokenDim : Nat) :=
      if s.megacache then [spec.maxBatchSize, spec.maxContextLength, s.numLayers, tokenDim]
      else [spec.maxBatchSize, spec.maxContextLength, tokenDim]
    allocComponentTensors cfg itemsize (shape c₀.tokenDim) (shape c₁.tokenDim)
  | _ => .error "component-spec initialization currently expects exactly 2 cache components"

/-- `dispatch_init_kvcache` on the init request of a checked specification. -/
def VAttentionInitSpec.initialise (spec : VAttentionInitSpec) : Except String Setup := do
  spec.postInit
  match spec.cacheSpec.architecture with
  | .denseKv =>
    initKvcache spec.cacheSpec.numLayers spec.cacheSpec.numKvHeads spec.cacheSpec.headSize
      spec.maxBatchSize spec.maxContextLength spec.cacheSpec.pageSize spec.dtype
      spec.cacheSpec.megacache
  | .mla => initKvcacheComponentSpec spec

end VAttention.Allocator
