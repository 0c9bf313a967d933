import VAttention.Allocator.State
import VAttention.Executor.Inputs
import VAttention.Manager.Model

/-!
# Workers and their cache engines

Model of `worker/base_worker.py` and `worker/cache_engine`.  A worker keeps its own copies of
the sequences and a cache engine.  The vAttention cache engine assigns a request slot of the
allocator to every sequence it sees and tells the allocator the context lengths of all slots
in every step; the paged one has nothing to do.
-/

namespace VAttention.Worker

open VAttention.Core VAttention.Lib VAttention.Manager
open VAttention.Allocator hiding State
open VAttention.Executor

/-- The interface of a cache engine. -/
class CacheEngine (γ : Type) where
  numFreeBlocks : γ → Nat
  preemptRequests : List SeqId → γ → Except PyError γ
  step : List SequenceMetadata → γ → Except PyError γ
  onStepCompletion : List SequenceMetadata → γ → Except PyError γ

/-! ## The vAttention cache engine -/

/-- `vATTNCacheEngine`, with the allocator behind it. -/
structure VAttnCacheEngine where
  config : Allocator.Config
  vattnAsync : Bool
  currSeqLens : Nat → Nat
  seqToBatchIdx : SeqId → Option Nat
  allocator : Allocator.State

namespace VAttnCacheEngine

/-- `vATTNCacheEngine.__init__`, with `reserve_physical_pages`. -/
def new (config : Allocator.Config) (vattnAsync : Bool) (newPage : Nat → Page)
    (cacheMemSize : Nat) : VAttnCacheEngine where
  config := config
  vattnAsync := vattnAsync
  currSeqLens := fun _ => 0
  seqToBatchIdx := fun _ => none
  allocator := reservePhysicalPages config newPage cacheMemSize State.init

variable (c : VAttnCacheEngine)

/-- `num_free_blocks`. -/
def numFreeBlocks : Nat := numFreeKvblocks c.config c.allocator

/-- The context length that `step` records for an entry of the batch. -/
def contextLen (m : SequenceMetadata) : Nat :=
  if m.isPrompt then
    m.seq.promptTokensProcessed + (m.seq.getNextPromptChunkLen m.promptChunkLen).toNat
  else m.seq.getLen

/-- `get_req_batch_idx` and `alloc_new_batch_idx`. -/
def getReqBatchIdx (id : SeqId) (seqLen : Nat) : Except PyError (Nat × VAttnCacheEngine) :=
  match c.seqToBatchIdx id with
  | some idx => .ok (idx, c)
  | none =>
    match allocNewBatchIdx c.config seqLen c.allocator with
    | (none, _) =>
      .error (.assertionError "Failed to allocate new batch idx. This is not expected...")
    | (some idx, allocator) =>
      .ok (idx,
        { c with allocator, seqToBatchIdx := Function.update c.seqToBatchIdx id (some idx) })

/-- One turn of the loop of `step`. -/
def recordContext (m : SequenceMetadata) : Except PyError VAttnCacheEngine := do
  let (idx, c) ← c.getReqBatchIdx m.seq.seqId (contextLen m)
  pure { c with currSeqLens := Function.update c.currSeqLens idx (contextLen m) }

/-- The loop of `step`. -/
def recordBatch (metas : List SequenceMetadata) : Except PyError VAttnCacheEngine :=
  metas.foldlM recordContext c

/-- The text of an exception of the allocator. -/
def allocErrorText : AllocError → String
  | .poolEmpty => "***** page pool is empty *****"
  | .oomOnDemand => "***** OOM on demand: not enough free pages to continue *****"

/-- The call of the allocator in `step`.  In the asynchronous mode the background manager has
    finished by the time of the next call (`wait_kvcache_manager_sync`). -/
def callAllocator : Except PyError VAttnCacheEngine :=
  let result :=
    if c.vattnAsync then
      (stepAsync c.config c.currSeqLens c.allocator).andThen (doKvcacheMemoryManagement c.config)
    else stepSync c.config c.currSeqLens true c.allocator
  match result with
  | .done allocator => .ok { c with allocator }
  | .throw e _ => .error (.runtimeError (allocErrorText e))

/-- `step`. -/
def step (metas : List SequenceMetadata) : Except PyError VAttnCacheEngine := do
  let c ← c.recordBatch metas
  c.callAllocator

/-- `free_request`. -/
def freeRequest (id : SeqId) : Except PyError VAttnCacheEngine :=
  match c.seqToBatchIdx id with
  | some idx =>
    .ok { c with
      allocator := freeBatchIdx idx c.allocator
      seqToBatchIdx := Function.update c.seqToBatchIdx id none
      currSeqLens := Function.update c.currSeqLens idx 0 }
  | none => .error (.exception ("seq_id " ++ toString id ++ " not found in req_table"))

/-- `preempt_requests`. -/
def preemptRequests (ids : List SeqId) : Except PyError VAttnCacheEngine :=
  ids.foldlM freeRequest c

/-- `on_step_completion`. -/
def onStepCompletion (metas : List SequenceMetadata) : Except PyError VAttnCacheEngine :=
  metas.foldlM (fun c m => if m.seq.isFinished then c.freeRequest m.seq.seqId else pure c) c

instance : CacheEngine VAttnCacheEngine where
  numFreeBlocks := numFreeBlocks
  preemptRequests ids c := c.preemptRequests ids
  step metas c := c.step metas
  onStepCompletion metas c := c.onStepCompletion metas

end VAttnCacheEngine

/-! ## The paged cache engine -/

/-- `vLLMCacheEngine`. -/
structure PagedCacheEngine where
  numGpuBlocks : Nat

instance : CacheEngine PagedCacheEngine where
  numFreeBlocks c := c.numGpuBlocks
  -- there is no such method; the preemption queue of a paged manager is always empty
  preemptRequests _ _ := .error (.exception "preempt_requests")
  step _ c := .ok c
  onStepCompletion _ c := .ok c

/-! ## The worker -/

/-- `BaseWorker`: sequence manager and cache engine. -/
structure BaseWorker (β γ : Type) where
  replica : Replica β
  cacheEngine : γ

namespace BaseWorker

variable {β γ : Type} [BlockSpaceManager β] [CacheEngine γ]

/-- `add_seq`. -/
def addSeq (seq : Sequence) (w : BaseWorker β γ) : Except PyError (BaseWorker β γ) := do
  let replica ← w.replica.addSeq seq
  pure { w with replica }

/-- `if preempted_seq: self.preempt_requests(preempted_seq)`. -/
def preemptRequests (preemptedSeq : List SeqId) (cacheEngine : γ) : Except PyError γ :=
  if preemptedSeq.isEmpty then .ok cacheEngine
  else CacheEngine.preemptRequests preemptedSeq cacheEngine

/-- The first part of `execute_model`: apply the scheduler's decisions and release the slots
    of the sequences in the preemption queue. -/
def beginStep (out : SchedulerOutputs) (preemptedSeq : List SeqId) (w : BaseWorker β γ) :
    Except PyError (BaseWorker β γ) := do
  let blockManager := BlockSpaceManager.setFreeBlocks w.replica.ext
    (CacheEngine.numFreeBlocks w.cacheEngine)
  let replica ← Replica.onSchedule (workerHooks β) out { w.replica with ext := blockManager }
  let cacheEngine ← preemptRequests preemptedSeq w.cacheEngine
  pure { replica, cacheEngine }

/-- `execute_model`.  The model itself yields the tokens `sampled`. -/
def executeModel (padInputs : Bool) (out : SchedulerOutputs) (preemptedSeq : List SeqId)
    (sampled : SeqId → TokenId) (w : BaseWorker β γ) : Except PyError (BaseWorker β γ) := do
  let w ← w.beginStep out preemptedSeq
  let cacheEngine ← CacheEngine.step (w.replica.metadataList out) w.cacheEngine
  let _ ← prepareInputs padInputs (w.replica.metadataList out)
  let replica ← w.replica.onStepCompleted (workerHooks β) out sampled
  let cacheEngine ← CacheEngine.onStepCompletion (replica.metadataList out) cacheEngine
  pure { replica, cacheEngine }

end BaseWorker

end VAttention.Worker
