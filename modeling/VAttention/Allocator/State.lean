import Mathlib
import VAttention.Lib.Outcome

/-!
# The vAttention caching allocator: state and operations

Model of `vAttentionCachingAllocator` (`vattention.cu`, `utils.h`, `mux.h`).  The physical
side of the KV cache is a pool of page handles; each request slot owns a window of
`virt_buff_size_per_req` bytes of every component tensor, and the pagemap remembers which
pair of pages backs which block of the window.

## Conventions

- Quantities of C++ type `u64` are `Nat`; wrap-around is written `% u64Size` wherever an
  operation can leave the range.
- The two backends (CUDA and UVM) differ in the driver calls only; `page_size` is fixed
  at initialisation, so exactly one of the two pools is in use and the model has one.
- The pool is used as a stack: the head of `pages` is the back of the C++ vector.
- CUDA and driver calls are assumed to succeed (`CHECK_CUDA` exits the process otherwise).
-/

namespace VAttention.Allocator

open VAttention.Lib

/-- The number of values of C++ type `u64`. -/
def u64Size : Nat := 2 ^ 64

theorem smallPage_dvd_u64Size : 65536 ∣ u64Size := by decide

/-- Handle of one physical page (`CUPage`, `NvU64`). -/
abbrev Page := Nat

/-- Key of the pagemap: request slot, byte offset in the tensor, layer. -/
abbrev PageKey := Nat × Nat × Nat

/-- `cudaPhysPageMap`: the pages behind one block of the two component tensors. -/
abbrev PageMap := AList (fun _ : PageKey => Page × Page)

/-- The configuration globals of `utils.h` once initialisation has run.  The positivity
    fields hold of every configuration that survives it: `check_kvcache_config` rejects
    zero layers and `init_buffer_sizes` divides by `tokens_per_page`.  The supported page
    sizes (64, 128 and 256 KB with UVM, 2 MB with CUDA) are powers of two. -/
structure Config where
  numLayers : Nat
  maxBatchSize : Nat
  maxContextLength : Nat
  pageSize : Nat
  tokensPerPage : Nat
  megacacheEnabled : Bool
  numLayers_pos : 0 < numLayers
  pageSize_dvd : pageSize ∣ u64Size
  tokensPerPage_pos : 0 < tokensPerPage

namespace Config

variable (cfg : Config)

/-- `tokens_to_pages`: a ceiling division carried out in `u64`. -/
def tokensToPages (numTokens : Nat) : Nat :=
  ((numTokens + cfg.tokensPerPage - 1) % u64Size) / cfg.tokensPerPage

/-- `max_pages_per_req`, as set by `init_buffer_sizes`. -/
def maxPagesPerReq : Nat := cfg.tokensToPages cfg.maxContextLength

/-- `virt_buff_size_per_req`, as set by `init_buffer_sizes`. -/
def virtBuffSizePerReq : Nat := cfg.maxPagesPerReq * cfg.pageSize % u64Size

/-- `get_num_cache_components`: both initialisation paths end with two components. -/
def numCacheComponents : Nat := 2

/-- The layers whose tensors are mapped separately: layer 0 stands for all of them when
    the layers share one megacache tensor. -/
def layers : List Nat := if cfg.megacacheEnabled then [0] else List.range cfg.numLayers

/-- `get_pages_per_kvblock`. -/
def pagesPerKvblock : Nat :=
  if cfg.megacacheEnabled then numCacheComponents else numCacheComponents * cfg.numLayers

/-- `pages_to_kvblocks`. -/
def pagesToKvblocks (pages : Nat) : Nat := pages / cfg.pagesPerKvblock

/-- Byte offset of block `i` in the window of slot `r`, as `get_req_begin_offset_virt`
    and `get_req_current_map_offset` compute it. -/
def blockOffset (r i : Nat) : Nat := (r * cfg.virtBuffSizePerReq + i * cfg.pageSize) % u64Size

/-- `is_valid_offset`.  With `sync` set the source builds an exception object and drops
    it, so both modes report the failure through the return value. -/
def isValidOffset (r reqOffset : Nat) : Bool :=
  reqOffset < (r + 1) * cfg.virtBuffSizePerReq % u64Size

end Config

/-- The exceptions of the allocator. -/
inductive AllocError where
  /-- "***** page pool is empty *****" -/
  | poolEmpty
  /-- "***** OOM on demand: not enough free pages to continue *****" -/
  | oomOnDemand
  deriving DecidableEq, Repr

/-- The mutable globals of the allocator. -/
structure State where
  /-- Free pages (`cuda_pages` or `uvm_pages`), back of the vector first. -/
  pages : List Page
  /-- Pages behind mapped blocks. -/
  pagemap : PageMap
  /-- `mapped_pages`: number of mapped blocks of each slot. -/
  mappedPages : Nat → Nat
  /-- `curr_seq_lengths`: recorded sequence length of each slot, 0 for an inactive one. -/
  currSeqLengths : Nat → Nat
  deferredReclaim : Bool

/-- State after `init_kvcache_batch_metadata`, before any page is reserved. -/
def State.init : State where
  pages := []
  pagemap := ∅
  mappedPages := fun _ => 0
  currSeqLengths := fun _ => 0
  deferredReclaim := true

abbrev Result := Outcome AllocError State

variable (cfg : Config)

/-! ## Slot bookkeeping (`utils.h`) -/

/-- `set_req_seq_length`. -/
def State.setReqSeqLength (s : State) (r len : Nat) : State :=
  { s with currSeqLengths := Function.update s.currSeqLengths r len }

/-- `is_active_req`. -/
def State.isActiveReq (s : State) (r : Nat) : Bool := s.currSeqLengths r != 0

/-- `kvblocks_available`. -/
def kvblocksAvailable (s : State) (numKvblocks : Nat) : Bool :=
  numKvblocks ≤ cfg.pagesToKvblocks s.pages.length

/-- `get_num_overcommitted_kvblocks`: the differences are taken and summed in `u64`. -/
def getNumOvercommittedKvblocks (s : State) : Nat :=
  (List.range cfg.maxBatchSize).foldl
    (fun acc r =>
      (acc + s.mappedPages r + (u64Size - cfg.tokensToPages (s.currSeqLengths r))) % u64Size) 0

/-- `num_free_kvblocks`: free pages together with overcommitted ones. -/
def numFreeKvblocks (s : State) : Nat :=
  (cfg.pagesToKvblocks s.pages.length + getNumOvercommittedKvblocks cfg s) % u64Size

/-- `need_new_page_async`. -/
def needNewPageAsync (s : State) (r eagerStepCount : Nat) : Nat :=
  if !s.isActiveReq r then 0
  else if s.mappedPages r = cfg.maxPagesPerReq then 0
  else cfg.tokensToPages ((s.currSeqLengths r + eagerStepCount) % u64Size) - s.mappedPages r

/-! ## Mapping and unmapping (`mux.h`, `vattention.cu`) -/

/-- `reserve_physical_pages`: `cuMemCreate` hands out `newPage 0, newPage 1, ...` until the
    pool holds a whole number of KV blocks. -/
def reservePhysicalPages (newPage : Nat → Page) (freeMemory : Nat) (s : State) : State :=
  let numPhysBlocks := freeMemory / cfg.pageSize
  let numPhysBlocks := numPhysBlocks - numPhysBlocks % cfg.pagesPerKvblock
  { s with
    pages := ((List.range (numPhysBlocks - s.pages.length)).map newPage).reverse ++ s.pages }

/-- `MAP_PAGES`: pop two pages and record them under the key of the block.  The second
    `pop` may find the pool empty after the first one succeeded. -/
def mapPages (r reqOffset layer : Nat) (s : State) : Result :=
  match s.pages with
  | kPage :: vPage :: rest =>
    .done { s with
      pages := rest
      pagemap := s.pagemap.insert (r, reqOffset, layer) (kPage, vPage) }
  | [_] => .throw .poolEmpty { s with pages := [] }
  | [] => .throw .poolEmpty s

/-- `UNMAP_PAGES`: `operator[]` yields a default pair for a key that is not there. -/
def unmapPages (r reqOffset layer : Nat) (s : State) : State :=
  let pair := (s.pagemap.lookup (r, reqOffset, layer)).getD (0, 0)
  { s with
    pages := pair.2 :: pair.1 :: s.pages
    pagemap := s.pagemap.erase (r, reqOffset, layer) }

/-- One turn of the loop of `grow_kvcache_phys`: map the next block of slot `r` in every
    layer, then count it. -/
def mapReqPageOne (r : Nat) (s : State) : Result :=
  (Outcome.forEach (fun layer => mapPages r (cfg.blockOffset r (s.mappedPages r)) layer)
      cfg.layers s).andThen fun s' =>
    .done { s' with mappedPages := Function.update s'.mappedPages r (s'.mappedPages r + 1) }

/-- `unmap_req_page_one`: unmap the last mapped block of slot `r` in every layer. -/
def unmapReqPageOne (r : Nat) (s : State) : State :=
  let reqOffset := cfg.blockOffset r (s.mappedPages r - 1)
  let s' := cfg.layers.foldl (fun s layer => unmapPages r reqOffset layer s) s
  { s' with mappedPages := Function.update s'.mappedPages r (s'.mappedPages r - 1) }

/-- The `while` loop of `release_kvcache_pages_some`, with a bound on its iterations. -/
def releaseWhile (r retainBlocks : Nat) : Nat → State → State
  | 0, s => s
  | n + 1, s =>
    if retainBlocks < s.mappedPages r then
      releaseWhile r retainBlocks n (unmapReqPageOne cfg r s)
    else s

/-- `release_kvcache_pages_some`.  Every iteration unmaps one block, so the loop body runs
    at most `mapped_pages[r]` times. -/
def releaseKvcachePagesSome (r retainBlocks : Nat) (s : State) : State :=
  releaseWhile cfg r retainBlocks (s.mappedPages r) s

/-- `release_kvcache_pages_all`. -/
def releaseKvcachePagesAll (r : Nat) (s : State) : State := releaseKvcachePagesSome cfg r 0 s

/-- The loop of `grow_kvcache_phys`; it returns early at the end of the slot's window. -/
def growLoop (r : Nat) : Nat → State → Result
  | 0, s => .done s
  | n + 1, s =>
    if cfg.isValidOffset r (cfg.blockOffset r (s.mappedPages r)) then
      (mapReqPageOne cfg r s).andThen (growLoop r n)
    else .done s

/-- `grow_kvcache_phys`. -/
def growKvcachePhys (r numBlocks : Nat) (sync : Bool) (s : State) : Result :=
  if numBlocks = 0 then .done s
  else if !kvblocksAvailable cfg s numBlocks then
    -- a no-op when called by the background thread
    if !sync then .done s else .throw .oomOnDemand s
  else growLoop cfg r numBlocks s

/-- `MAP_COMMON_PAGES`: pop two pages and record them under the next block of every slot.  The
    offsets are not checked. -/
def mapCommonPages (layer : Nat) (s : State) : Result :=
  match s.pages with
  | kPage :: vPage :: rest =>
    .done { s with
      pages := rest
      pagemap := (List.range cfg.maxBatchSize).foldl
        (fun m r => m.insert (r, cfg.blockOffset r (s.mappedPages r), layer) (kPage, vPage))
        s.pagemap }
  | [_] => .throw .poolEmpty { s with pages := [] }
  | [] => .throw .poolEmpty s

/-- One turn of the loop of `map_common_pages_in_batch`: the block is counted for every slot. -/
def mapCommonBlock (s : State) : Result :=
  (Outcome.forEach (mapCommonPages cfg) cfg.layers s).andThen fun s' =>
    .done { s' with
      mappedPages := (List.range cfg.maxBatchSize).foldl
        (fun m r => Function.update m r (m r + 1)) s'.mappedPages }

/-- `map_common_pages_in_batch` (exported as `map_common_pages`). -/
def mapCommonPagesInBatch (numTokens : Nat) (s : State) : Result :=
  let numBlocks := cfg.tokensToPages numTokens
  if numBlocks = 0 then .done s
  else if !kvblocksAvailable cfg s numBlocks then .throw .oomOnDemand s
  else Outcome.forEach (fun _ => mapCommonBlock cfg) (List.range numBlocks) s

/-! ## Reclaiming -/

/-- The loop of `reclaim_kvblocks_on_demand` over the slots in the given order. -/
def reclaimLoop (numKvblocks : Nat) : List Nat → State → State
  | [], s => s
  | r :: rs, s =>
    if kvblocksAvailable cfg s numKvblocks then s
    else
      let nrRequired := cfg.tokensToPages (s.currSeqLengths r)
      if s.mappedPages r ≤ nrRequired then reclaimLoop numKvblocks rs s
      else reclaimLoop numKvblocks rs (releaseKvcachePagesSome cfg r nrRequired s)

/-- `reclaim_kvblocks_on_demand`: from the highest slot down. -/
def reclaimKvblocksOnDemand (numKvblocks : Nat) (s : State) : State :=
  reclaimLoop cfg numKvblocks (List.range cfg.maxBatchSize).reverse s

/-- `do_reclaim_pages`: unmap one block of the highest inactive slot that has one, sparing
    the slot the next prefill will get. -/
def doReclaimPages (s : State) : State :=
  if s.deferredReclaim then s
  else
    let slots := List.range cfg.maxBatchSize
    let nextPrefillReqId := slots.find? fun r => !s.isActiveReq r
    let victim := slots.reverse.find? fun r =>
      !(s.isActiveReq r || some r == nextPrefillReqId) && s.mappedPages r != 0
    match victim with
    | some r => unmapReqPageOne cfg r s
    | none => s

/-! ## The step functions -/

/-- `map_pages_for_curr_step`. -/
def mapPagesForCurrStep (r seqLen : Nat) (s : State) : Result :=
  if seqLen = 0 then .done s
  else
    let nrRequired := cfg.tokensToPages seqLen
    if nrRequired ≤ s.mappedPages r then .done s
    else
      let nrToGrow := nrRequired - s.mappedPages r
      let s :=
        if kvblocksAvailable cfg s nrToGrow then s else reclaimKvblocksOnDemand cfg nrToGrow s
      (growKvcachePhys cfg r nrToGrow true s).andThen fun s => .done (s.setReqSeqLength r seqLen)

/-- One turn of the loop of `step_sync`. -/
def stepSyncSlot (seqLens : Nat → Nat) (eagerReclaim : Bool) (r : Nat) (s : State) : Result :=
  let s := s.setReqSeqLength r (seqLens r)
  if eagerReclaim && (seqLens r == 0 && s.mappedPages r != 0) then
    .done (releaseKvcachePagesAll cfg r s)
  else mapPagesForCurrStep cfg r (seqLens r) s

/-- `step_sync` (exported as `step`). -/
def stepSync (seqLens : Nat → Nat) (eagerReclaim : Bool) (s : State) : Result :=
  Outcome.forEach (stepSyncSlot cfg seqLens eagerReclaim) (List.range cfg.maxBatchSize) s

/-- `prepare_prefill_kvcache`. -/
def preparePrefillKvcache (s : State) : Result :=
  Outcome.forEach (fun r s => mapPagesForCurrStep cfg r (s.currSeqLengths r) s)
    (List.range cfg.maxBatchSize) s

/-- The part of `step_async` that runs before it returns, the background manager being
    idle (`wait_kvcache_manager_sync`). -/
def stepAsync (seqLens : Nat → Nat) (s : State) : Result :=
  preparePrefillKvcache cfg { s with currSeqLengths := seqLens }

/-! ## The background manager -/

/-- `EAGER_NUM_STEPS`. -/
def eagerNumSteps : Nat := 10

/-- `EAGER_NUM_KVBLOCKS`. -/
def eagerNumKvblocks : Nat := 2

/-- Allocator state together with the locals `nr_mapped_curr` and `done` of the eager
    loops of `do_kvcache_memory_management`. -/
structure EagerState where
  st : State
  nrMappedCurr : Nat
  finished : Bool

/-- Body of the inner eager loop for slot `r`; nothing runs once `done` is set. -/
def eagerBody (eagerStepCount r : Nat) (e : EagerState) : Outcome AllocError EagerState :=
  if e.finished then .done e
  else
    let nrRequiredCurr := needNewPageAsync cfg e.st r eagerStepCount
    let nrMappedCurr := (e.nrMappedCurr + nrRequiredCurr) % u64Size
    (growKvcachePhys cfg r nrRequiredCurr false e.st).map fun st =>
      { st, nrMappedCurr
        finished := eagerStepCount != 1 && decide (eagerNumKvblocks ≤ nrMappedCurr) }

/-- The two nested eager loops. -/
def eagerLoop (e : EagerState) : Outcome AllocError EagerState :=
  Outcome.forEach
    (fun eagerStepCount => Outcome.forEach (eagerBody cfg eagerStepCount)
      (List.range cfg.maxBatchSize))
    (List.range' 1 (eagerNumSteps - 1)) e

/-- `do_kvcache_memory_management`: one complete run of the background manager. -/
def doKvcacheMemoryManagement (s : State) : Result :=
  let nrRequired := (List.range cfg.maxBatchSize).foldl
    (fun acc r => (acc + needNewPageAsync cfg s r 1) % u64Size) 0
  let s :=
    if kvblocksAvailable cfg s nrRequired then s else reclaimKvblocksOnDemand cfg nrRequired s
  if !kvblocksAvailable cfg s nrRequired then .done s
  else
    ((eagerLoop cfg { st := s, nrMappedCurr := 0, finished := false }).map
      EagerState.st).andThen fun s =>
        .done (if nrRequired != 0 then s else doReclaimPages cfg s)

/-! ## Request slots -/

/-- The best-fit scan of `alloc_new_batch_idx`; `none` stands for `-1`. -/
def findBatchIdx (seqlen : Nat) (s : State) : Option Nat :=
  let nrRequired := cfg.tokensToPages seqlen
  (List.range cfg.maxBatchSize).foldl
    (fun newId r =>
      if s.isActiveReq r then newId
      else
        match newId with
        | none => some r
        | some q =>
          if nrRequired ≤ s.mappedPages r && s.mappedPages r < s.mappedPages q then some r
          else some q)
    none

/-- `alloc_new_batch_idx`. -/
def allocNewBatchIdx (seqlen : Nat) (s : State) : Option Nat × State :=
  match findBatchIdx cfg seqlen s with
  | some r => (some r, s.setReqSeqLength r seqlen)
  | none => (none, s)

/-- `free_batch_idx`. -/
def freeBatchIdx (r : Nat) (s : State) : State := s.setReqSeqLength r 0

/-- `cleanup`: unmap every slot, then release the pages of the pool and clear it.  The
    second component lists the pages given to `cuMemRelease`, in order. -/
def cleanup (s : State) : State × List Page :=
  let s := (List.range cfg.maxBatchSize).foldl (fun s r => releaseKvcachePagesAll cfg r s) s
  ({ s with pages := [] }, s.pages.reverse)

end VAttention.Allocator
