import VAttention.Allocator.Layout
import VAttention.Allocator.ModelConfig
import VAttention.Engine.Capacity

/-!
# One cache geometry on both sides

The size of a page in tokens and the size of a KV block in pages are derived twice: in Python
from the model configuration (`config.py`, `arg_utils.py`), where they become the scheduler's
block size and block count, and in the extension from what the worker hands over.  In between,
`_init_cache` takes minima over the workers and caps the number of blocks.

## Main results

- `memoryForGpu_eq`: after the minima, the memory that is handed to the workers is a whole
  number of KV blocks, the scheduler's.
- `EngineArgs.cache_geometry_agrees`: both sides have the same geometry, and every worker
  reserves as many KV blocks as the scheduler hands out.
-/

namespace VAttention.Engine

open VAttention.Allocator VAttention.Core VAttention.Lib VAttention.Worker

/-! ## Model -/

/-- What the command line fixes for a vAttention backend.  `pageSize` is its block size, or
    `VATTN_DEFAULT_PAGE_SIZE` for an MLA model. -/
structure EngineArgs where
  model : ModelConfig
  parallel : ParallelConfig
  pageSize : Nat
  megacache : Bool
  vattnAsync : Bool
  maxNumSeqs : Nat

/-- `CacheConfig`, before profiling. -/
structure CacheConfig where
  blockSize : Nat
  pageSize : Nat
  maxBatchSize : Nat

/-- The GPU of a worker: the memory that profiling finds left for the cache, negative if the
    model alone takes too much, and the handles of its pages. -/
structure Device where
  physicalMemory : Int
  newPage : Nat → Page

/-- An exception of the configuration code, seen from the engine. -/
def raised {α : Type} (x : Except String α) : Except PyError α := x.mapError .valueError

namespace EngineArgs

variable (a : EngineArgs)

/-- `create_engine_configs`, up to the cache configuration. -/
def createEngineConfigs : Except PyError CacheConfig := do
  let layout ← raised (a.model.getCacheLayout a.parallel a.pageSize a.megacache)
  let _ ← raised (a.model.getVattentionCacheSpec a.parallel a.pageSize a.megacache)
  pure {
    blockSize := layout.tokensPerPage
    pageSize := a.pageSize
    maxBatchSize := a.maxNumSeqs }

/-- `vATTNCacheEngine.get_cache_block_size`. -/
def getCacheBlockSize (pageSize : Nat) : Except PyError Nat :=
  raised (a.model.getVattentionCacheBlockSizeBytes a.parallel pageSize a.megacache)

/-- `profile_num_available_blocks`, after the forward pass has been measured. -/
def profileNumAvailableBlocks (cache : CacheConfig) (device : Device) :
    Except PyError (Int × Int) := do
  let cacheBlockSize ← a.getCacheBlockSize cache.pageSize
  raiseIf (cacheBlockSize == 0) (.exception "integer division or modulo by zero")
  let numGpuBlocks := device.physicalMemory / cacheBlockSize
  pure (max numGpuBlocks 0, device.physicalMemory)

/-- `init_cache_engine` on one worker.  The binding of `reserve_physical_pages` takes a `u64`. -/
def initCacheEngine (cache : CacheConfig) (memoryForGpu : Int) (device : Device) :
    Except PyError VAttnCacheEngine := do
  let initSpec ← raised (a.model.getVattentionInitSpec a.parallel cache.pageSize a.megacache
    cache.maxBatchSize)
  let setup ← raised initSpec.initialise
  raiseIf (memoryForGpu < 0 || (u64Size : Int) ≤ memoryForGpu)
    (.exception "reserve_physical_pages(): incompatible function arguments.")
  pure (.new setup.cfg a.vattnAsync device.newPage memoryForGpu.toNat)

/-- `_init_cache` with the calls to the workers. -/
def initCacheOnWorkers (cache : CacheConfig) (devices : List Device) :
    Except PyError (CacheBudget × List VAttnCacheEngine) := do
  let outputAll ← devices.mapM (a.profileNumAvailableBlocks cache)
  let cacheBlockSize ← a.getCacheBlockSize cache.pageSize
  let budget ← initCache outputAll cacheBlockSize a.model.maxModelLen cache.blockSize a.maxNumSeqs
  let workers ← devices.mapM (a.initCacheEngine cache budget.memoryForGpu)
  pure (budget, workers)

end EngineArgs

/-! ## The memory of the cache -/

/-- If every worker has the memory for the blocks it reports, then the memory that `_init_cache`
    hands out is that of the scheduler's blocks: neither the minimum over the workers nor the cap
    leaves a remainder. -/
theorem memoryForGpu_eq {outputAll : List (Int × Int)} {cacheBlockSize : Int}
    {maxModelLen blockSize maxNumSeqs : Nat} {budget : CacheBudget} (hsize : 0 ≤ cacheBlockSize)
    (hfits : ∀ output ∈ outputAll, 0 < output.1 → output.1 * cacheBlockSize ≤ output.2)
    (h : initCache outputAll cacheBlockSize maxModelLen blockSize maxNumSeqs = .ok budget) :
    budget.memoryForGpu = budget.numGpuBlocks * cacheBlockSize := by
  unfold initCache at h
  split at h
  case h_2 => cases h
  case h_1 profiled physicalMemory hprofiled hphysical =>
    obtain ⟨_, hpos, h⟩ := seq_eq_ok.mp h
    obtain ⟨_, -, h⟩ := seq_eq_ok.mp h
    obtain ⟨_, -, h⟩ := seq_eq_ok.mp h
    cases h
    simp only [raiseIf_eq_ok, decide_eq_false_iff_not, Int.not_le] at hpos
    -- the worker with the least memory reports at least as many blocks as are handed out
    obtain ⟨hmem, -⟩ := List.min?_eq_some_iff.mp hphysical
    obtain ⟨output, houtput, rfl⟩ := List.mem_map.mp hmem
    obtain ⟨-, hleast⟩ := List.min?_eq_some_iff.mp hprofiled
    have hle : profiled ≤ output.1 := hleast _ (List.mem_map_of_mem houtput)
    have hcap : ((min profiled.toNat (ceilDiv maxModelLen blockSize * maxNumSeqs) : Nat) : Int) ≤
        output.1 := by omega
    exact min_eq_right ((Int.mul_le_mul_of_nonneg_right hcap hsize).trans
      (hfits output houtput (by omega)))

/-- Whole KV blocks of memory become as many KV blocks of pages. -/
theorem reserved_pages_length (cfg : Config) (newPage : Nat → Page) (numKvblocks : Nat)
    (hpage : 0 < cfg.pageSize) :
    (reservePhysicalPages cfg newPage (numKvblocks * (cfg.pageSize * cfg.pagesPerKvblock))
      State.init).pages.length = numKvblocks * cfg.pagesPerKvblock := by
  have hdiv : numKvblocks * (cfg.pageSize * cfg.pagesPerKvblock) / cfg.pageSize =
      numKvblocks * cfg.pagesPerKvblock := by
    rw [Nat.mul_left_comm, Nat.mul_div_cancel_left _ hpage]
  simp [reservePhysicalPages, State.init, hdiv]

/-! ## Both sides -/

theorem raised_eq_ok {α : Type} {x : Except String α} {r : α} : raised x = .ok r ↔ x = .ok r := by
  cases x <;> simp [raised, Except.mapError]

namespace EngineArgs

variable {a : EngineArgs} {cache : CacheConfig} {device : Device}

/-- The block size of the scheduler is the page size, in tokens, of a checked specification. -/
theorem createEngineConfigs_specifies (h : a.createEngineConfigs = .ok cache) :
    cache.pageSize = a.pageSize ∧ ∃ spec,
      a.model.Specifies a.parallel a.pageSize a.megacache spec ∧
        cache.blockSize = spec.tokensPerPage := by
  obtain ⟨layout, hlayout, h⟩ := seq_eq_ok.mp h
  obtain ⟨spec, hspec, h⟩ := seq_eq_ok.mp h
  cases h
  have hspecifies := ModelConfig.getVattentionCacheSpec_specifies (raised_eq_ok.mp hspec)
  have htpp := ModelConfig.getCacheLayout_tokensPerPage (raised_eq_ok.mp hlayout)
  refine ⟨rfl, spec, hspecifies, ?_⟩
  exact Except.ok.inj (htpp.symm.trans hspecifies.tokensPerPage)

/-- A worker that reports blocks has the memory for them. -/
theorem profileNumAvailableBlocks_fits {cacheBlockSize : Nat} {output : Int × Int}
    (hsize : a.getCacheBlockSize cache.pageSize = .ok cacheBlockSize)
    (h : a.profileNumAvailableBlocks cache device = .ok output) :
    0 < output.1 → output.1 * cacheBlockSize ≤ output.2 := by
  obtain ⟨size, hsize', h⟩ := seq_eq_ok.mp h
  obtain rfl : size = cacheBlockSize := Except.ok.inj (hsize'.symm.trans hsize)
  obtain ⟨⟨⟩, hne, h⟩ := seq_eq_ok.mp h
  cases h
  simp only [raiseIf_eq_ok, beq_eq_false_iff_ne] at hne
  intro hpos
  have hmax : max (device.physicalMemory / (size : Int)) 0 = device.physicalMemory / size := by
    omega
  rw [hmax]
  exact Int.ediv_mul_le _ (by omega)

/-- What `init_cache_engine` leaves on a worker. -/
structure WorkerGeometry (a : EngineArgs) (spec : VAttentionCacheSpec) (memoryForGpu : Int)
    (device : Device) (worker : VAttnCacheEngine) : Prop where
  tokensPerPage : worker.config.tokensPerPage = spec.tokensPerPage
  pageSize : worker.config.pageSize = a.pageSize
  pagesPerKvblock : worker.config.pagesPerKvblock =
    if a.megacache then 2 else spec.numLayers * 2
  allocator : worker.allocator =
    reservePhysicalPages worker.config device.newPage memoryForGpu.toNat State.init

theorem initCacheEngine_geometry {spec : VAttentionCacheSpec} {memoryForGpu : Int}
    {worker : VAttnCacheEngine} (hpage : cache.pageSize = a.pageSize)
    (hspec : a.model.Specifies a.parallel a.pageSize a.megacache spec)
    (h : a.initCacheEngine cache memoryForGpu device = .ok worker) :
    WorkerGeometry a spec memoryForGpu device worker := by
  obtain ⟨initSpec, hinitSpec, h⟩ := seq_eq_ok.mp h
  obtain ⟨setup, hsetup, h⟩ := seq_eq_ok.mp h
  obtain ⟨⟨⟩, -, h⟩ := seq_eq_ok.mp h
  cases h
  -- the worker derives the specification again, from the same configuration
  obtain ⟨spec', hspec', hinitSpec⟩ := seq_eq_ok.mp (raised_eq_ok.mp hinitSpec)
  obtain ⟨⟨⟩, -, hinitSpec⟩ := seq_eq_ok.mp hinitSpec
  cases hinitSpec
  rw [hpage] at hspec'
  have hspec' := ModelConfig.getVattentionCacheSpec_specifies hspec'
  have hlayers : spec'.numLayers = spec.numLayers :=
    Except.ok.inj (hspec'.numLayers.symm.trans hspec.numLayers)
  have htpp : spec'.tokensPerPage = spec.tokensPerPage :=
    Except.ok.inj (hspec'.tokensPerPage.symm.trans hspec.tokensPerPage)
  obtain ⟨-, hcfg, -⟩ := initialise_parts (raised_eq_ok.mp hsetup)
  obtain ⟨-, -, hcfgLayers, hcfgPage, hcfgTpp, hcfgMega⟩ := mkConfig_eq_ok hcfg
  refine ⟨?_, hcfgPage.trans hspec'.pageSize_eq, ?_, rfl⟩
  · refine hcfgTpp.trans (Eq.trans ?_ htpp)
    -- only the dense path computes the tokens per page anew
    cases harch : spec'.architecture with
    | mla => simp only [VAttentionInitSpec.extensionTokensPerPage, harch]
    | denseKv =>
      have hdense := hspec'.dense_tokensPerPage (hspec'.architecture.symm.trans harch)
      simp only [VAttentionInitSpec.extensionTokensPerPage, harch, hspec'.megacache_eq,
        hspec'.pageSize_eq]
      rw [hdense, Nat.mul_comm spec'.numLayers]
  · show setup.cfg.pagesPerKvblock = _
    unfold Config.pagesPerKvblock Config.numCacheComponents
    rw [hcfgMega, hcfgLayers, hspec'.megacache_eq, hlayers, Nat.mul_comm]

/-- **One geometry**: if the cache configuration is built and `_init_cache` succeeds, then a page
    holds at least one token, and on every worker the extension's tokens per page are the
    scheduler's block size, its pages per KV block those of the Python side, and the KV blocks
    it has reserved are exactly the scheduler's. -/
theorem cache_geometry_agrees (a : EngineArgs) (cache : CacheConfig) (devices : List Device)
    (budget : CacheBudget) (workers : List VAttnCacheEngine)
    (hcache : a.createEngineConfigs = .ok cache)
    (hinit : a.initCacheOnWorkers cache devices = .ok (budget, workers)) :
    0 < cache.blockSize ∧ workers.length = devices.length ∧
      ∃ pagesPerKvblock,
        a.model.getVattentionPagesPerKvblock a.parallel a.megacache = .ok pagesPerKvblock ∧
        a.getCacheBlockSize cache.pageSize = .ok (cache.pageSize * pagesPerKvblock) ∧
        ∀ worker ∈ workers,
          worker.config.tokensPerPage = cache.blockSize ∧
          worker.config.pagesPerKvblock = pagesPerKvblock ∧
          worker.config.pageSize = cache.pageSize ∧
          worker.allocator.pages.length = budget.numGpuBlocks * pagesPerKvblock ∧
          worker.config.pagesToKvblocks worker.allocator.pages.length = budget.numGpuBlocks := by
  obtain ⟨hpage, spec, hspec, hblock⟩ := createEngineConfigs_specifies hcache
  have hpages := hspec.pagesPerKvblock
  have hsize : a.getCacheBlockSize cache.pageSize =
      .ok (cache.pageSize * if a.megacache then 2 else spec.numLayers * 2) := by
    refine raised_eq_ok.mpr (seq_eq_ok.mpr ⟨_, hpages, rfl⟩)
  obtain ⟨outputAll, houtputs, hinit⟩ := seq_eq_ok.mp hinit
  obtain ⟨size, hsize', hinit⟩ := seq_eq_ok.mp hinit
  cases hsize'.symm.trans hsize
  obtain ⟨budget', hbudget, hinit⟩ := seq_eq_ok.mp hinit
  obtain ⟨workers', hworkers, hinit⟩ := seq_eq_ok.mp hinit
  cases hinit
  have hmemory := memoryForGpu_eq (Int.natCast_nonneg _) (fun output houtput => by
    obtain ⟨device, -, hprofile⟩ := exists_mem_of_mapM_ok houtputs output houtput
    exact profileNumAvailableBlocks_fits hsize hprofile) hbudget
  refine ⟨?_, length_of_mapM_ok hworkers, _, hpages, hsize, fun worker hworker => ?_⟩
  · rw [hblock]
    exact VAttentionCacheSpec.tokensPerPage_pos_of_postInit hspec.checked
  obtain ⟨device, -, hdevice⟩ := exists_mem_of_mapM_ok hworkers worker hworker
  have hgeom := initCacheEngine_geometry hpage hspec hdevice
  -- the memory of the worker is a whole number of its own KV blocks
  have hbytes : budget.memoryForGpu.toNat =
      budget.numGpuBlocks * (worker.config.pageSize * worker.config.pagesPerKvblock) := by
    rw [hmemory, hgeom.pageSize, hgeom.pagesPerKvblock, hpage]
    exact_mod_cast Int.toNat_natCast _
  have hlen : worker.allocator.pages.length =
      budget.numGpuBlocks * worker.config.pagesPerKvblock := by
    rw [hgeom.allocator, hbytes]
    exact reserved_pages_length _ _ _ (Nat.pos_of_dvd_of_pos worker.config.pageSize_dvd (by decide))
  refine ⟨hgeom.tokensPerPage.trans hblock.symm, hgeom.pagesPerKvblock,
    hgeom.pageSize.trans hpage.symm, hgeom.pagesPerKvblock ▸ hlen, ?_⟩
  rw [hlen]
  exact Nat.mul_div_cancel _ worker.config.pagesPerKvblock_pos

/-- A dense model of two layers on two tensor-parallel ranks, with one KV head of 64
    half-precision numbers on each, and pages of 64 KB. -/
def dense : EngineArgs where
  model := {
    hfConfig := {
      modelType := "llama"
      numHiddenLayers := 2
      hiddenSize := 256
      numAttentionHeads := some 4
      numKeyValueHeads := some 2 }
    dtype := ⟨"float16", 2, Nat.two_pos⟩
    maxModelLen := 1024 }
  parallel := { pipelineParallelSize := 1, tensorParallelSize := 2 }
  pageSize := 65536
  megacache := false
  vattnAsync := false
  maxNumSeqs := 2

/-- The same layers with an MLA cache in a megacache. -/
def mla : EngineArgs where
  model := { dense.model with
    hfConfig := { dense.model.hfConfig with
      kvLoraRank := some 512
      qkNopeHeadDim := some 128
      qkRopeHeadDim := some 64
      vHeadDim := some 128 } }
  parallel := dense.parallel
  pageSize := 2097152
  megacache := true
  vattnAsync := false
  maxNumSeqs := 2

/-- Two workers with room for three KV blocks of `dense` and more, neither a whole number. -/
def unevenDevices : List Device := [⟨1000000, id⟩, ⟨1900000, id⟩]

/-- The smaller worker decides: three KV blocks of 512 tokens in four pages each. -/
theorem dense_geometry :
    ∃ cache budget workers, dense.createEngineConfigs = .ok cache ∧
      dense.initCacheOnWorkers cache unevenDevices = .ok (budget, workers) ∧
      cache.blockSize = 512 ∧ budget.numGpuBlocks = 3 ∧ workers.length = 2 ∧
      ∀ worker ∈ workers, worker.config.tokensPerPage = 512 ∧
        worker.config.pagesToKvblocks worker.allocator.pages.length = 3 := by
  refine ⟨⟨512, 65536, 2⟩, ⟨3, 786432⟩, _, rfl, rfl, rfl, rfl, ?_⟩
  obtain ⟨-, hlen, _, -, -, hworkers⟩ :=
    cache_geometry_agrees dense ⟨512, 65536, 2⟩ unevenDevices ⟨3, 786432⟩ _ rfl rfl
  refine ⟨hlen, fun worker hworker => ?_⟩
  obtain ⟨htokens, -, -, -, hblocks⟩ := hworkers worker hworker
  exact ⟨htokens, hblocks⟩

-- an MLA page of 2 MB holds 910 tokens of both layers
example : (mla.createEngineConfigs.map (·.blockSize)) = .ok 910 := by rfl

end EngineArgs

end VAttention.Engine
