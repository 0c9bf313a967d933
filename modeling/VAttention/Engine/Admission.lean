import VAttention.Engine.Slots
import VAttention.Scheduler.Admission
import VAttention.Worker.Demand

/-!
# Admission control and physical memory

The scheduler plans a step with the number of free blocks that the workers report.  A block
that a running sequence will need for a token it has already been promised is not in use yet,
so it counts as free, and the scheduler can give it away.  The allocator serves every batch if
at the start of each step the blocks owed to the running sequences are free, and stay so when a
waiting sequence is admitted.
-/

namespace VAttention.Engine

open VAttention.Core VAttention.Lib VAttention.Scheduler VAttention.Manager VAttention.Worker
open VAttention.Allocator hiding State
open VAttnCacheEngine

variable {cfg : EngineConfig} {inp : StepInput} {e e₁ e' : VAttnEngine} {out : SchedulerOutputs}
  {queue : List SeqId}

/-! ## The condition -/

/-- Blocks that the delivery of the preemption queue gives back. -/
def releasedBlocks (queue : List SeqId) (c : VAttnCacheEngine) : Nat :=
  (queue.map c.recordedPages).sum

/-- Blocks that a sequence lacks on a worker once the queue has been delivered. -/
def missingBlocks (blockManager : VAttentionBlockManager) (objs : Heap) (queue : List SeqId)
    (c : VAttnCacheEngine) (id : SeqId) : Nat :=
  blockManager.getNumBlocks (objs id) - if id ∈ queue then 0 else c.recordedPages id

/-- Blocks that the running sequences lack for the tokens they have. -/
def owedBlocks (e : VAttnEngine) (c : VAttnCacheEngine) : Nat :=
  (e.scheduler.running.map fun id => missingBlocks e.scheduler.blockManager e.replica.objs
    e.scheduler.blockManager.preemptionQueue c id).sum

/-- Blocks that are free on a worker once the queue has been delivered. -/
def availableBlocks (e : VAttnEngine) (c : VAttnCacheEngine) : Nat :=
  c.numFreeBlocks + releasedBlocks e.scheduler.blockManager.preemptionQueue c

/-- What the running sequences lack is available on every worker, also besides a waiting sequence
    that Sarathi would admit; vLLM admits in steps of their own. -/
def coversDemand (cfg : EngineConfig) (e : VAttnEngine) : Event → Bool
  | .addRequest _ => true
  | .step _ => e.workers.all fun w =>
      owedBlocks e w.cacheEngine ≤ availableBlocks e w.cacheEngine &&
      match cfg.scheduler.policy with
      | .sarathi _ =>
        let blockManager := (schedulerAtStep e).blockManager
        e.scheduler.waiting.all fun id =>
          cfg.scheduler.maxModelLen < (e.replica.objs id).getLen ||
          blockManager.freeBlocks < blockManager.watermarkBlocks +
            blockManager.getNumBlocks (e.replica.objs id) +
            nextBlocks blockManager e.replica.objs e.scheduler.running ||
          owedBlocks e w.cacheEngine + blockManager.getNumBlocks (e.replica.objs id) ≤
            availableBlocks e w.cacheEngine
      | _ => true

/-- The lengths that a step passes to the allocator need at most `total` blocks, and the call of
    the allocator returns normally. -/
def AllocationSucceeds (cfg : EngineConfig) (inp : StepInput) (total : Nat) (e : VAttnEngine) :
    Prop :=
  ∀ e₁ out queue, e.scheduleStep cfg inp = .ok (e₁, out, queue) →
    ∀ w ∈ e₁.workers, ∀ w₁, w.beginStep out queue = .ok w₁ →
      ∀ c, w₁.cacheEngine.recordBatch (w₁.replica.metadataList out) = .ok c →
        totalPages c.config c.currSeqLens ≤ total ∧ ∃ c', c.callAllocator = .ok c'

/-- Invariant of the runs: every worker's slots are in order, and scheduler and allocator agree
    on the size of a block. -/
structure MemoryInv (config : Allocator.Config) (reserved : List Page) (e : VAttnEngine) :
    Prop where
  engine : EngineInv e
  slots : ∀ w ∈ e.workers, SlotInv reserved w.cacheEngine
  config_eq : ∀ w ∈ e.workers, w.cacheEngine.config = config
  blockSize : e.scheduler.blockManager.blockSize = config.tokensPerPage

variable {config : Allocator.Config} {reserved : List Page}

/-! ## The demand of a batch -/

/-- The allocator needs no more blocks for a context than the scheduler counts for the length. -/
theorem tokensToPages_le_ceilDiv {config : Allocator.Config} {context len : Nat}
    (h : context ≤ len) : config.tokensToPages context ≤ ceilDiv len config.tokensPerPage := by
  apply Nat.div_le_div_right
  calc (context + config.tokensPerPage - 1) % u64Size
      ≤ context + config.tokensPerPage - 1 := Nat.mod_le _ _
    _ ≤ len + config.tokensPerPage - 1 := by omega

/-- The free blocks that the scheduler uses are free on every worker. -/
theorem schedulerAtStep_freeBlocks_le {w : BaseWorker VAttentionBlockManager VAttnCacheEngine}
    (hw : w ∈ e.workers) :
    (schedulerAtStep e).blockManager.freeBlocks ≤ w.cacheEngine.numFreeBlocks := by
  have hmem : w.cacheEngine.numFreeBlocks ∈
      e.workers.map fun w => CacheEngine.numFreeBlocks w.cacheEngine :=
    List.mem_map_of_mem (f := fun w : BaseWorker VAttentionBlockManager VAttnCacheEngine =>
      CacheEngine.numFreeBlocks w.cacheEngine) hw
  change ((e.workers.map fun w => CacheEngine.numFreeBlocks w.cacheEngine).min?).getD 0 ≤ _
  cases hmin : (e.workers.map fun w => CacheEngine.numFreeBlocks w.cacheEngine).min? with
  | none => simp
  | some free => exact (List.min?_eq_some_iff.mp hmin).2 _ hmem

/-- **The scheduler's checks and the condition cover the batch.** -/
theorem covered_demand_le {w : BaseWorker VAttentionBlockManager VAttnCacheEngine}
    {batch : List SeqId} (hguard : coversDemand cfg e (.step inp) = true) (hw : w ∈ e.workers)
    (hnodup : batch.Nodup)
    (hcovered : Covered cfg.scheduler e.replica.objs (schedulerAtStep e) batch) :
    (batch.map fun id => missingBlocks e.scheduler.blockManager e.replica.objs
      e.scheduler.blockManager.preemptionQueue w.cacheEngine id).sum ≤
        availableBlocks e w.cacheEngine := by
  obtain ⟨howed, hwaiting⟩ := Bool.and_eq_true_iff.mp (List.all_eq_true.mp hguard w hw)
  have howed := of_decide_eq_true howed
  have hfree := schedulerAtStep_freeBlocks_le hw
  cases hcovered with
  | running hrunning =>
    -- sequences that were running need at most what is owed to all of them
    exact (sum_map_le_of_subset _ hnodup hrunning).trans howed
  | admitted hfits =>
    -- the scheduler has counted all blocks of the admitted sequences
    have hle : (batch.map fun id => missingBlocks e.scheduler.blockManager e.replica.objs
        e.scheduler.blockManager.preemptionQueue w.cacheEngine id).sum ≤
          (batch.map fun id =>
            (schedulerAtStep e).blockManager.getNumBlocks (e.replica.objs id)).sum :=
      List.sum_le_sum fun id _ => Nat.sub_le _ _
    have havailable : w.cacheEngine.numFreeBlocks ≤ availableBlocks e w.cacheEngine :=
      Nat.le_add_right _ _
    omega
  | @chunked chunks old id hpolicy hbatch hold hmem hlen hfits =>
    simp only [hpolicy] at hwaiting
    have hone := List.all_eq_true.mp hwaiting id hmem
    simp only [Bool.or_eq_true, decide_eq_true_eq] at hone
    -- the condition speaks about the admitted one, which fits and was given its blocks
    have hneeds : owedBlocks e w.cacheEngine +
        (schedulerAtStep e).blockManager.getNumBlocks (e.replica.objs id) ≤
          availableBlocks e w.cacheEngine := by
      rcases hone with (hlong | hfull) | hneeds
      · omega
      · have hsame : nextBlocks (schedulerAtStep e).blockManager e.replica.objs
            (schedulerAtStep e).running = nextBlocks (schedulerAtStep e).blockManager
              e.replica.objs e.scheduler.running := rfl
        omega
      · exact hneeds
    rw [hbatch] at hnodup ⊢
    -- the decodes need what is owed to them, the admitted one all its blocks
    have hsum := sum_map_le_of_subset (fun id => missingBlocks e.scheduler.blockManager
      e.replica.objs e.scheduler.blockManager.preemptionQueue w.cacheEngine id)
      (List.Nodup.of_append_left hnodup) hold
    have hlast : missingBlocks e.scheduler.blockManager e.replica.objs
        e.scheduler.blockManager.preemptionQueue w.cacheEngine id ≤
          (schedulerAtStep e).blockManager.getNumBlocks (e.replica.objs id) := Nat.sub_le _ _
    have howedle : (old.map fun id => missingBlocks e.scheduler.blockManager e.replica.objs
        e.scheduler.blockManager.preemptionQueue w.cacheEngine id).sum ≤
          owedBlocks e w.cacheEngine := hsum
    rw [List.map_append, List.sum_append, List.map_singleton, List.sum_singleton]
    omega

/-! ## One step -/

/-- The slots of a worker once the preemption queue has been delivered. -/
theorem beginStep_slots {w w₁ : BaseWorker VAttentionBlockManager VAttnCacheEngine}
    (h : SlotInv reserved w.cacheEngine) (hbegin : w.beginStep out queue = .ok w₁) :
    SlotInv reserved w₁.cacheEngine ∧ w₁.cacheEngine.config = w.cacheEngine.config ∧
      totalPages w₁.cacheEngine.config w₁.cacheEngine.currSeqLens +
          releasedBlocks queue w.cacheEngine =
        totalPages w.cacheEngine.config w.cacheEngine.currSeqLens ∧
      ∀ k, w₁.cacheEngine.recordedPages k =
        if k ∈ queue then 0 else w.cacheEngine.recordedPages k :=
  h.preemptRequests (beginStep_preemptRequests hbegin)

/-- The entries that a worker passes to its cache engine are those of the batch. -/
theorem EngineInv.metadataList_ids (h : EngineInv e)
    (hschedule : e.scheduleStep cfg inp = .ok (e₁, out, queue))
    {w w₁ : BaseWorker VAttentionBlockManager VAttnCacheEngine} (hw : w ∈ e₁.workers)
    (hbegin : w.beginStep out queue = .ok w₁) :
    (w₁.replica.metadataList out).map (fun m => m.seq.seqId) = out.batchIds := by
  rw [Replica.metadataList, List.map_map]
  apply List.map_congr_left
  intro m hm
  obtain ⟨-, hid, hobjs⟩ := h.beginStep_objs hschedule hw hbegin hm
  change (w₁.replica.objs m.seqId).seqId = m.seqId
  rw [hobjs]
  exact (entering_seqId out m.seqId _).trans hid

/-- A worker once its step has begun: its slots are in order, and no sequence is twice in the
    batch. -/
theorem MemoryInv.beginStep (h : MemoryInv config reserved e)
    (hschedule : e.scheduleStep cfg inp = .ok (e₁, out, queue))
    {w w₁ : BaseWorker VAttentionBlockManager VAttnCacheEngine} (hw : w ∈ e₁.workers)
    (hbegin : w.beginStep out queue = .ok w₁) :
    SlotInv reserved w₁.cacheEngine ∧ w₁.cacheEngine.config = config ∧
      ((w₁.replica.metadataList out).map fun m => m.seq.seqId).Nodup := by
  have hw' : w ∈ e.workers := BaseLLMEngine.scheduleStep_workers hschedule ▸ hw
  have hspec := BaseLLMEngine.scheduleStep_spec h.engine.nodup hschedule
  obtain ⟨hslots, hconfig, -, -⟩ := beginStep_slots (h.slots w hw') hbegin
  refine ⟨hslots, hconfig.trans (h.config_eq w hw'), ?_⟩
  rw [h.engine.metadataList_ids hschedule hw hbegin]
  exact hspec.batch_nodup

/-- What the entries of a batch cost on a worker is what their sequences lack. -/
theorem MemoryInv.batchGrowth_le (h : MemoryInv config reserved e)
    (hschedule : e.scheduleStep cfg inp = .ok (e₁, out, queue))
    {w w₁ : BaseWorker VAttentionBlockManager VAttnCacheEngine} (hw : w ∈ e₁.workers)
    (hbegin : w.beginStep out queue = .ok w₁) :
    w₁.cacheEngine.batchGrowth (w₁.replica.metadataList out) ≤
      (out.batchIds.map fun id => missingBlocks e.scheduler.blockManager e.replica.objs
        e.scheduler.blockManager.preemptionQueue w.cacheEngine id).sum := by
  have hw' : w ∈ e.workers := BaseLLMEngine.scheduleStep_workers hschedule ▸ hw
  obtain ⟨-, hconfig, -, hpages⟩ := beginStep_slots (h.slots w hw') hbegin
  obtain ⟨hqueue, -⟩ := scheduleStep_preemptionQueue hschedule
  simp only [batchGrowth, Replica.metadataList, SchedulerOutputs.batchIds, scheduledIds,
    List.map_map]
  apply List.sum_le_sum
  intro m hm
  obtain ⟨hregular, hid, hobjs⟩ := h.engine.beginStep_objs hschedule hw hbegin hm
  -- the context is at most the length, which entering the batch does not change
  have hcontext : contextLen ⟨w₁.replica.objs m.seqId, m.promptChunkLen⟩ ≤
      (e.replica.objs m.seqId).getLen := by
    rw [hobjs, ← getLen_entering out m.seqId (e.replica.objs m.seqId)]
    exact contextLen_le_getLen (regular_core.mpr (hregular.entering out m.seqId)) _
  have hblocks : w₁.cacheEngine.config.tokensToPages
      (contextLen ⟨w₁.replica.objs m.seqId, m.promptChunkLen⟩) ≤
        e.scheduler.blockManager.getNumBlocks (e.replica.objs m.seqId) := by
    rw [hconfig, h.config_eq w hw', VAttentionBlockManager.getNumBlocks, h.blockSize]
    exact tokensToPages_le_ceilDiv hcontext
  have hself : (w₁.replica.objs m.seqId).seqId = m.seqId := by
    rw [hobjs]
    exact (entering_seqId out m.seqId _).trans hid
  simp only [Function.comp_apply, missingBlocks]
  rw [hself, hpages, hqueue]
  exact Nat.sub_le_sub_right hblocks _

/-- **The blocks of a batch fit** besides those in use, if the condition holds. -/
theorem MemoryInv.batch_fits (h : MemoryInv config reserved e)
    (hpolicy : (∃ n, cfg.scheduler.policy = .vllm n) ∨
      ∃ chunks, cfg.scheduler.policy = .sarathi chunks)
    (hguard : coversDemand cfg e (.step inp) = true)
    (hschedule : e.scheduleStep cfg inp = .ok (e₁, out, queue))
    {w w₁ : BaseWorker VAttentionBlockManager VAttnCacheEngine} (hw : w ∈ e₁.workers)
    (hbegin : w.beginStep out queue = .ok w₁) :
    totalPages w₁.cacheEngine.config w₁.cacheEngine.currSeqLens +
        w₁.cacheEngine.batchGrowth (w₁.replica.metadataList out) ≤
      totalKvblocks config reserved := by
  have hw' : w ∈ e.workers := BaseLLMEngine.scheduleStep_workers hschedule ▸ hw
  have hspec := BaseLLMEngine.scheduleStep_spec h.engine.nodup hschedule
  obtain ⟨hqueue, -⟩ := scheduleStep_preemptionQueue hschedule
  -- what the scheduler has checked, and what follows for the worker
  have hcovered : Covered cfg.scheduler e.replica.objs (schedulerAtStep e) out.batchIds := by
    apply schedule_covered hpolicy _ (scheduleStep_schedule hschedule)
    intro id hid
    simp [Sequence.isPaused, h.engine.running id hid]
  have hdemand := covered_demand_le hguard hw' hspec.batch_nodup hcovered
  have hgrowth := h.batchGrowth_le hschedule hw hbegin
  obtain ⟨-, -, htotal, -⟩ := beginStep_slots (h.slots w hw') hbegin
  -- what is free and what is released were not in use
  have hfree := (h.slots w hw').numFreeBlocks_add_le
  rw [h.config_eq w hw'] at hfree htotal
  rw [hqueue] at htotal
  simp only [availableBlocks] at hdemand
  omega

theorem MemoryInv.allocationSucceeds (h : MemoryInv config reserved e)
    (hpolicy : (∃ n, cfg.scheduler.policy = .vllm n) ∨
      ∃ chunks, cfg.scheduler.policy = .sarathi chunks)
    (hguard : coversDemand cfg e (.step inp) = true) :
    AllocationSucceeds cfg inp (totalKvblocks config reserved) e := by
  intro e₁ out queue hschedule w hw w₁ hbegin c hrecord
  obtain ⟨hslots, hsame, hnodup⟩ := h.beginStep hschedule hw hbegin
  have hfits := h.batch_fits hpolicy hguard hschedule hw hbegin
  rw [← hsame] at hfits ⊢
  exact hslots.callAllocator_done hnodup hrecord hfits

/-! ## Preservation -/

/-- The block size never changes. -/
theorem SchedStep.blockSize_eq {scfg : SchedulerConfig} {now : Time} {phase : Phase}
    {σ σ' : LoopState VAttentionBlockManager} (hstep : SchedStep scfg now phase σ σ') :
    σ'.blockManager.blockSize = σ.blockManager.blockSize := by
  cases hstep with
  | keep | setAside | prefill | orcaDecode | ignore | requeue | takePrefills => rfl
  | decode _ _ _ happend =>
    cases happend
    rw [VAttentionBlockManager.appendSlot_eq]
  | enter _ _ _ _ hallocate =>
    cases hallocate
    rfl
  | @preempt _ _ front victim =>
    obtain ⟨credited, -, active, hfree⟩ := σ.blockManager.free_eq victim (σ.objs victim)
    simp only [BlockSpaceManager.enqueuePreempted, BlockSpaceManager.free, hfree]

theorem scheduleStep_blockSize (h : e.scheduleStep cfg inp = .ok (e₁, out, queue)) :
    e₁.scheduler.blockManager.blockSize = e.scheduler.blockManager.blockSize := by
  exact schedule_manager_invariant
    (fun manager _ => manager.blockSize = e.scheduler.blockManager.blockSize) rfl rfl
    (fun _ _ _ hstep heq => (SchedStep.blockSize_eq hstep).trans heq) (scheduleStep_schedule h)

theorem onStepCompleted_blockSize (objs : Heap) (s : SchedulerState VAttentionBlockManager) :
    (s.onStepCompleted objs).blockManager.blockSize = s.blockManager.blockSize := by
  refine onStepCompleted_manager_invariant
    (fun manager : VAttentionBlockManager => manager.blockSize = s.blockManager.blockSize) rfl ?_
  intro manager id seq hsame
  obtain ⟨credited, -, active, hfree⟩ := manager.free_eq id seq
  simp only [BlockSpaceManager.free, hfree]
  exact hsame

/-- A worker's slots after it has executed a batch. -/
theorem MemoryInv.executeModel_slots (h : MemoryInv config reserved e)
    (hpolicy : (∃ n, cfg.scheduler.policy = .vllm n) ∨
      ∃ chunks, cfg.scheduler.policy = .sarathi chunks)
    (hguard : coversDemand cfg e (.step inp) = true)
    (hschedule : e.scheduleStep cfg inp = .ok (e₁, out, queue))
    {w w' : BaseWorker VAttentionBlockManager VAttnCacheEngine} (hw : w ∈ e₁.workers)
    (hexecute : w.executeModel cfg.padInputs out queue inp.sampled = .ok w') :
    SlotInv reserved w'.cacheEngine ∧ w'.cacheEngine.config = config := by
  obtain ⟨w₁, c, hbegin, hstep, -, hcompletion⟩ := executeModel_eq_ok hexecute
  obtain ⟨hslots, hsame, hnodup⟩ := h.beginStep hschedule hw hbegin
  -- there was model input for every entry, so no context is empty
  have hpos : ∀ m ∈ w₁.replica.metadataList out, 0 < contextLen m := by
    intro m hm
    obtain ⟨rows, hrows⟩ := executeModel_inputs hexecute hbegin
    obtain ⟨new, hnew⟩ := Executor.inputRows_ok_of_prepareInputs hrows m hm
    exact contextLen_pos hnew
  have hfits := h.batch_fits hpolicy hguard hschedule hw hbegin
  rw [← hsame] at hfits
  obtain ⟨hslots₂, hconfig₂⟩ := hslots.step hnodup hpos hfits hstep
  obtain ⟨hslots₃, hconfig₃⟩ := hslots₂.onStepCompletion hcompletion
  exact ⟨hslots₃, hconfig₃.trans (hconfig₂.trans hsame)⟩

theorem MemoryInv.exec {event : Event} (h : MemoryInv config reserved e)
    (hpolicy : (∃ n, cfg.scheduler.policy = .vllm n) ∨
      ∃ chunks, cfg.scheduler.policy = .sarathi chunks)
    (hguard : coversDemand cfg e event = true) (hexec : e.exec cfg event = .ok e') :
    MemoryInv config reserved e' := by
  have hengine := h.engine.exec hexec
  cases event with
  | addRequest req =>
    have hadd := addRequest_view hexec
    constructor
    case engine => exact hengine
    case slots => exact hadd.cacheEngines h.slots
    case config_eq => exact hadd.cacheEngines (P := fun c => c.config = config) h.config_eq
    case blockSize =>
      rw [hadd.scheduler]
      exact h.blockSize
  | step inp =>
    obtain ⟨e₁, out, queue, hschedule, hrest⟩ := BaseLLMEngine.exec_step_eq_ok hexec
    have hworkers := BaseLLMEngine.scheduleStep_workers hschedule
    have hblock := (scheduleStep_blockSize hschedule).trans h.blockSize
    rcases hrest with ⟨-, rfl⟩ | ⟨-, hexecute⟩
    · exact ⟨hengine, hworkers ▸ h.slots, hworkers ▸ h.config_eq, hblock⟩
    · obtain ⟨-, -, hmodels, -, hscheduler⟩ := BaseLLMEngine.executeStep_eq_ok hexecute
      have hafter : ∀ w' ∈ e'.workers,
          SlotInv reserved w'.cacheEngine ∧ w'.cacheEngine.config = config := by
        intro w' hw'
        obtain ⟨w, hw, hmodel⟩ := exists_mem_of_mapM_ok hmodels w' hw'
        exact h.executeModel_slots hpolicy hguard hschedule hw hmodel
      refine ⟨hengine, fun w' hw' => (hafter w' hw').1, fun w' hw' => (hafter w' hw').2, ?_⟩
      rw [hscheduler, onStepCompleted_blockSize]
      exact hblock

/-! ## Runs -/

/-- An engine before its first call, with synchronous vAttention on every worker and blocks of
    one page of tokens. -/
def IsSyncStart (config : Allocator.Config) (newPage : Nat → Page) (cacheMemSize : Nat)
    (e : VAttnEngine) : Prop :=
  ∃ blockManager numWorkers, blockManager.blockSize = config.tokensPerPage ∧
    e = .start blockManager
      (List.replicate numWorkers (.new config false newPage cacheMemSize))

/-- The number of KV blocks that `reserve_physical_pages` provides. -/
def reservedKvblocks (config : Allocator.Config) (newPage : Nat → Page) (cacheMemSize : Nat) :
    Nat :=
  totalKvblocks config (VAttnCacheEngine.new config false newPage cacheMemSize).allocator.pages

theorem MemoryInv.start {newPage : Nat → Page} {cacheMemSize : Nat}
    (hstart : IsSyncStart config newPage cacheMemSize e) :
    MemoryInv config (VAttnCacheEngine.new config false newPage cacheMemSize).allocator.pages
      e := by
  obtain ⟨blockManager, numWorkers, hblock, rfl⟩ := hstart
  have hcache : ∀ w ∈ (BaseLLMEngine.start blockManager (List.replicate numWorkers
      (VAttnCacheEngine.new config false newPage cacheMemSize))).workers,
      w.cacheEngine = .new config false newPage cacheMemSize := by
    intro w hw
    obtain ⟨c, hc, rfl⟩ := List.mem_map.mp hw
    exact List.eq_of_mem_replicate hc
  constructor
  case engine => exact .start blockManager _
  case slots =>
    intro w hw
    rw [hcache w hw]
    exact .new config newPage cacheMemSize
  case config_eq =>
    intro w hw
    rw [hcache w hw]
    rfl
  case blockSize => exact hblock

/-- **Admission control is sound if the running sequences' blocks are not given away**: with the
    vLLM or the Sarathi scheduler, in every run whose steps meet the condition, every call of the
    allocator returns normally, and the blocks it needs are at most those reserved. -/
theorem allocation_succeeds_of_coversDemand (cfg : EngineConfig) {newPage : Nat → Page}
    {cacheMemSize : Nat} {e : VAttnEngine}
    (hpolicy : (∃ n, cfg.scheduler.policy = .vllm n) ∨
      ∃ chunks, cfg.scheduler.policy = .sarathi chunks)
    (hreach : ReachesFrom cfg (IsSyncStart config newPage cacheMemSize)
      (fun e event => coversDemand cfg e event = true) e)
    (inp : StepInput) (hguard : coversDemand cfg e (.step inp) = true) :
    AllocationSucceeds cfg inp (reservedKvblocks config newPage cacheMemSize) e := by
  have hinv := hreach.invariant (MemoryInv config _) (fun e hstart => MemoryInv.start hstart)
    fun e event e' h hguard hexec => h.exec hpolicy hguard hexec
  exact hinv.allocationSucceeds hpolicy hguard

/-! ### Two runs -/

theorem isSyncStart_vattnEngine (numGpuBlocks : Nat) :
    IsSyncStart smallAllocator id (numGpuBlocks * 2 * 65536) (vattnEngine numGpuBlocks) :=
  ⟨.new 2 numGpuBlocks, 1, rfl, rfl⟩

/-- Two prompts of two tokens over four blocks: in the third step both take their second one. -/
def roomyRun : List Event :=
  [simpleRequest 0 [1, 2], simpleRequest 1 [3, 4], simpleStep, simpleStep]

theorem roomyRun_allocation_succeeds :
    ∃ e, (vattnEngine 4).run vllmConfig roomyRun = .ok e ∧ e.scheduler.running = [0, 1] ∧
      AllocationSucceeds vllmConfig ⟨9, fun _ => 5⟩
        (reservedKvblocks smallAllocator id (4 * 2 * 65536)) e := by
  have hstate : ((vattnEngine 4).run vllmConfig roomyRun).map (fun e =>
      (e.scheduler.running, coversDemand vllmConfig e (.step ⟨9, fun _ => 5⟩))) =
        .ok ([0, 1], true) := by rfl
  obtain ⟨e, hrun, hend⟩ := map_eq_ok.mp hstate
  obtain ⟨hrunning, hguard⟩ := Prod.mk.inj hend
  refine ⟨e, hrun, hrunning,
    allocation_succeeds_of_coversDemand vllmConfig (.inl ⟨4, rfl⟩) ?_ _ hguard⟩
  exact Reaches.foldlM (fun _ _ => id) (.init (isSyncStart_vattnEngine 4)) (by decide +kernel) hrun

/-- A sequence is promised a second block; before it takes it, another one is admitted. -/
def overcommittedRun : List Event :=
  [simpleRequest 0 [1, 2], simpleStep, simpleStep, simpleRequest 1 [3, 4], simpleStep]

/-- The caches of the workers when the allocator is called. -/
def BaseLLMEngine.recordedCaches (cfg : EngineConfig) (inp : StepInput) (e : VAttnEngine) :
    Except PyError (List VAttnCacheEngine) := do
  let (e₁, out, queue) ← e.scheduleStep cfg inp
  let workers ← e₁.workers.mapM (BaseWorker.beginStep out queue)
  workers.mapM fun w => w.cacheEngine.recordBatch (w.replica.metadataList out)

/-- Over two blocks the fourth step needs three, two for the first sequence and one for the
    second one, and the allocator throws. -/
theorem overcommittedRun_out_of_memory :
    ∃ e, (vattnEngine 2).run vllmConfig overcommittedRun = .ok e ∧
      ¬ AllocationSucceeds vllmConfig ⟨9, fun _ => 5⟩
        (reservedKvblocks smallAllocator id (2 * 2 * 65536)) e ∧
      e.exec vllmConfig simpleStep = .error (.runtimeError (allocErrorText .oomOnDemand)) := by
  have hstate : ((vattnEngine 2).run vllmConfig overcommittedRun >>= fun e =>
      (BaseLLMEngine.recordedCaches vllmConfig ⟨9, fun _ => 5⟩ e).map fun caches =>
        (caches.map fun c => totalPages c.config c.currSeqLens,
          (e.exec vllmConfig simpleStep).map fun _ => ())) =
        .ok ([3], .error (.runtimeError (allocErrorText .oomOnDemand))) := by rfl
  obtain ⟨e, hrun, hcaches⟩ := seq_eq_ok.mp hstate
  obtain ⟨caches, hrecorded, hend⟩ := map_eq_ok.mp hcaches
  obtain ⟨hpages, hthrows⟩ := Prod.mk.inj hend
  refine ⟨e, hrun, fun hsucceeds => ?_, ?_⟩
  · obtain ⟨⟨e₁, out, queue⟩, hschedule, hrest⟩ := seq_eq_ok.mp hrecorded
    obtain ⟨workers, hbegins, hrecords⟩ := seq_eq_ok.mp hrest
    obtain ⟨c, hc, hthree⟩ := List.mem_map.mp (hpages ▸ List.mem_singleton_self 3)
    obtain ⟨w₁, hw₁, hrecord⟩ := exists_mem_of_mapM_ok hrecords c hc
    obtain ⟨w, hw, hbegin⟩ := exists_mem_of_mapM_ok hbegins w₁ hw₁
    -- the lengths recorded need three blocks of two
    have hle := (hsucceeds e₁ out queue hschedule w hw w₁ hbegin c hrecord).1
    rw [hthree] at hle
    exact absurd hle (by decide +kernel)
  · cases hexec : e.exec vllmConfig simpleStep with
    | ok e' =>
      rw [hexec] at hthrows
      cases hthrows
    | error err =>
      rw [hexec] at hthrows
      cases hthrows
      rfl

end VAttention.Engine
