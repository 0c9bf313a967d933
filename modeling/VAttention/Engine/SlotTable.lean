import VAttention.Engine.Admission
import VAttention.Engine.Readmission
import VAttention.Worker.SlotTable

/-!
# Batch slots do not run out

A worker has as many slots as the scheduler may run sequences.  When a batch is recorded, the
slots in use are those of the sequences that were running before the step: the slots of evicted
sequences have just been released, and those of finished ones were released at the end of their
last step.  So there is a slot for every sequence that the step admits.

This needs that no slot is lost.  A worker keeps the slot of a sequence that stops at a string it
does not see, and of a sequence whose eviction it is never told; a sequence that is evicted and
scheduled in one step loses its slot while it is running.
-/

namespace VAttention.Engine

open VAttention.Core VAttention.Lib VAttention.Scheduler VAttention.Manager VAttention.Worker
open VAttnCacheEngine

variable {cfg : EngineConfig} {inp : StepInput} {e e₁ e' : VAttnEngine} {out : SchedulerOutputs}
  {queue : List SeqId} {w w' w₁ : BaseWorker VAttentionBlockManager VAttnCacheEngine}

/-! ## The condition and the claim -/

/-- A step delivers the preemption queue it takes, hides no stop from the workers, and has a chunk
    schedule that keeps the victims out of the batch. -/
def keepsSlots (cfg : EngineConfig) (e : VAttnEngine) (event : Event) : Bool :=
  deliversQueue cfg e event &&
    match event with
    | .addRequest _ => true
    | .step _ => dynamicChunksCover cfg e

/-- In the next step every worker can release the slots of the preemption queue, finds a slot for
    every entry of the batch, and can release those of the entries that finish. -/
def SlotCallsSucceed (cfg : EngineConfig) (inp : StepInput) (e : VAttnEngine) : Prop :=
  ∀ e₁ out queue, e.scheduleStep cfg inp = .ok (e₁, out, queue) →
    ∀ w ∈ e₁.workers, (∃ c, w.cacheEngine.preemptRequests queue = .ok c) ∧
      ∀ w₁, w.beginStep out queue = .ok w₁ →
        (∃ c, w₁.cacheEngine.recordBatch (w₁.replica.metadataList out) = .ok c) ∧
        ∀ c r, w₁.cacheEngine.step (w₁.replica.metadataList out) = .ok c →
          w₁.replica.onStepCompleted (workerHooks _) out inp.sampled = .ok r →
            ∃ c', c.onStepCompletion (r.metadataList out) = .ok c'

/-- An engine before its first call, with as many slots on every worker as the scheduler may run
    sequences. -/
def IsSlotStart (cfg : EngineConfig) (e : VAttnEngine) : Prop :=
  ∃ blockManager cacheEngines, blockManager.preemptionQueue = [] ∧
    (∀ c ∈ cacheEngines, IsNew c ∧ c.config.maxBatchSize = cfg.scheduler.maxNumSeqs) ∧
    e = .start blockManager cacheEngines

/-- The three tables at the end of a step: running sequences, preemption queue, and the slots of
    each worker. -/
structure SlotTableInv (cfg : EngineConfig) (e : VAttnEngine) : Prop where
  engine : EngineInv e
  chunk : ChunkInv cfg e
  length : e.scheduler.running.length ≤ cfg.scheduler.maxNumSeqs
  queue_nodup : e.scheduler.blockManager.preemptionQueue.Nodup
  parked : ∀ id ∈ e.scheduler.blockManager.preemptionQueue, id ∈ e.scheduler.waiting
  owned : SlotsOwned e
  holds : ∀ w ∈ e.workers, ∀ id, id ∈ e.scheduler.running ∨
    id ∈ e.scheduler.blockManager.preemptionQueue → w.cacheEngine.HasSlot id
  tables : ∀ w ∈ e.workers, TableInv w.cacheEngine
  size : ∀ w ∈ e.workers, w.cacheEngine.config.maxBatchSize = cfg.scheduler.maxNumSeqs

theorem SlotTableInv.start (hstart : IsSlotStart cfg e) : SlotTableInv cfg e := by
  obtain ⟨blockManager, cacheEngines, hqueue, hnew, rfl⟩ := hstart
  have hcache : ∀ w ∈ (BaseLLMEngine.start blockManager cacheEngines).workers,
      ∃ c ∈ cacheEngines, w.cacheEngine = c := by
    intro w hw
    obtain ⟨c, hc, rfl⟩ := List.mem_map.mp hw
    exact ⟨c, hc, rfl⟩
  have hempty : (BaseLLMEngine.start blockManager
      cacheEngines).scheduler.blockManager.preemptionQueue = [] := hqueue
  constructor
  case engine => exact .start blockManager cacheEngines
  case chunk => exact ⟨nofun, fun _ _ => Nat.zero_le _, fun _ _ _ => nofun⟩
  case length => exact Nat.zero_le _
  case queue_nodup => simp [hempty]
  case parked => simp [hempty]
  case owned => exact .start ⟨_, _, fun c hc => (hnew c hc).1, rfl⟩
  case holds =>
    rintro w - id (hid | hid)
    · cases hid
    · rw [hempty] at hid
      cases hid
  case tables =>
    intro w hw
    obtain ⟨c, hc, hself⟩ := hcache w hw
    obtain ⟨⟨config, vattnAsync, newPage, cacheMemSize, rfl⟩, -⟩ := hnew c hc
    rw [hself]
    exact .new config vattnAsync newPage cacheMemSize
  case size =>
    intro w hw
    obtain ⟨c, hc, hself⟩ := hcache w hw
    rw [hself]
    exact (hnew c hc).2

/-! ## The calls of one step -/

/-- The sequences that had slots and those of the batch are no more than there are slots: either
    nobody is evicted and all of them are running now, or nobody is admitted and all of them were
    running. -/
theorem SlotTableInv.batch_bounded (h : SlotTableInv cfg e)
    (hpolicy : (∃ n, cfg.scheduler.policy = .vllm n) ∨
      ∃ chunks, cfg.scheduler.policy = .sarathi chunks)
    (hschedule : e.scheduleStep cfg inp = .ok (e₁, out, queue)) :
    ∃ ids : List SeqId, ids.length ≤ cfg.scheduler.maxNumSeqs ∧
      (∀ id ∈ e.scheduler.running, id ∈ ids) ∧ ∀ id ∈ out.batchIds, id ∈ ids := by
  have hspec := BaseLLMEngine.scheduleStep_spec h.engine.nodup hschedule
  by_cases hevicts : out.preemptedSeqIds = []
  · refine ⟨e₁.scheduler.running, ?_, fun id hid => ?_, hspec.batch_running⟩
    · exact schedule_length (scheduleStep_schedule hschedule) h.length
    · refine (h.engine.running_or_preempted hschedule hid).resolve_right ?_
      rw [hevicts]
      exact List.not_mem_nil
  · refine ⟨e.scheduler.running, h.length, fun _ => id, ?_⟩
    refine schedule_batch_running (s := schedulerAtStep e) hpolicy (fun id hid => ?_)
      (scheduleStep_schedule hschedule) hevicts
    simp [Sequence.isPaused, h.engine.running id hid]

/-- Once the queue is delivered, the slots of a worker are those of the running sequences. -/
theorem SlotTableInv.delivered (h : SlotTableInv cfg e)
    (hschedule : e.scheduleStep cfg inp = .ok (e₁, out, queue)) (hw : w ∈ e₁.workers)
    (hbegin : w.beginStep out queue = .ok w₁) :
    TableInv w₁.cacheEngine ∧
      w₁.cacheEngine.config.maxBatchSize = cfg.scheduler.maxNumSeqs ∧
      ∀ id, w₁.cacheEngine.HasSlot id ↔ id ∈ e.scheduler.running := by
  have hw' : w ∈ e.workers := BaseLLMEngine.scheduleStep_workers hschedule ▸ hw
  have hpreempt := beginStep_preemptRequests hbegin
  obtain ⟨htable, hconfig⟩ := (h.tables w hw').preemptRequests hpreempt
  refine ⟨htable, hconfig ▸ h.size w hw', fun id => ?_⟩
  rw [preemptRequests_hasSlot hpreempt, (scheduleStep_preemptionQueue hschedule).1]
  constructor
  · rintro ⟨hslot, hnot⟩
    exact (h.owned w hw' id hslot).resolve_right hnot
  · intro hid
    refine ⟨h.holds w hw' id (.inl hid), fun hqueue => ?_⟩
    -- a queued sequence is waiting
    exact (List.nodup_append.mp h.engine.nodup).2.2 id (h.parked id hqueue) id hid rfl

/-- **The slots of a worker serve the next step.** -/
theorem SlotTableInv.slotCallsSucceed (h : SlotTableInv cfg e)
    (hpolicy : (∃ n, cfg.scheduler.policy = .vllm n) ∨
      ∃ chunks, cfg.scheduler.policy = .sarathi chunks) (inp : StepInput) :
    SlotCallsSucceed cfg inp e := by
  intro e₁ out queue hschedule w hw
  have hw' : w ∈ e.workers := BaseLLMEngine.scheduleStep_workers hschedule ▸ hw
  have hspec := BaseLLMEngine.scheduleStep_spec h.engine.nodup hschedule
  obtain ⟨ids, hlen, hrunning, hbatch⟩ := h.batch_bounded hpolicy hschedule
  refine ⟨?_, fun w₁ hbegin => ?_⟩
  · rw [(scheduleStep_preemptionQueue hschedule).1]
    exact preemptRequests_succeeds h.queue_nodup fun id hid => h.holds w hw' id (.inr hid)
  obtain ⟨htable, hsize, hslots⟩ := h.delivered hschedule hw hbegin
  have hids := h.engine.metadataList_ids hschedule hw hbegin
  refine ⟨recordBatch_succeeds htable.held (hsize ▸ hlen) (fun id hid => ?_) fun m hm => ?_,
    fun c r hstep hcompleted => ?_⟩
  · exact hrunning id ((hslots id).mp hid)
  · exact hbatch _ (hids ▸ List.mem_map_of_mem hm)
  -- the entries carry the same ids after the round, and all of them have slots
  have hids' : (r.metadataList out).map (fun m => m.seq.seqId) = out.batchIds := by
    rw [Replica.metadataList, List.map_map]
    exact List.map_congr_left fun m hm =>
      h.engine.onStepCompleted_seqId hschedule hw hbegin hcompleted hm
  refine onStepCompletion_succeeds (hids' ▸ hspec.batch_nodup) fun m hm => ?_
  refine (step_hasSlot hstep).mpr (.inr ?_)
  have hmem : m.seq.seqId ∈ (w₁.replica.metadataList out).map fun m => m.seq.seqId := by
    rw [hids, ← hids']
    exact List.mem_map_of_mem hm
  exact List.mem_map.mp hmem

/-! ## Preservation -/

/-- The slots of a worker after a batch. -/
theorem SlotTableInv.executeModel_hasSlot_iff (h : SlotTableInv cfg e)
    (hschedule : e.scheduleStep cfg inp = .ok (e₁, out, queue)) (hw : w ∈ e₁.workers)
    (hexecute : w.executeModel cfg.padInputs out queue inp.sampled = .ok w') (id : SeqId) :
    w'.cacheEngine.HasSlot id ↔ (id ∈ e.scheduler.running ∨ id ∈ out.batchIds) ∧
      (id ∈ out.batchIds → (w'.replica.objs id).isFinished = false) := by
  obtain ⟨w₁, c, hbegin, hstep, hcompleted, hcompletion⟩ := executeModel_eq_ok hexecute
  obtain ⟨-, -, hslots⟩ := h.delivered hschedule hw hbegin
  have hentries : (∃ m ∈ w₁.replica.metadataList out, m.seq.seqId = id) ↔ id ∈ out.batchIds := by
    rw [← h.engine.metadataList_ids hschedule hw hbegin, List.mem_map]
  have hfinish : (∀ m ∈ w'.replica.metadataList out, m.seq.seqId = id → m.seq.isFinished = false) ↔
      (id ∈ out.batchIds → (w'.replica.objs id).isFinished = false) := by
    constructor
    · intro hall hbatch
      obtain ⟨m, hm, rfl⟩ := List.mem_map.mp hbatch
      refine hall ⟨w'.replica.objs m.seqId, m.promptChunkLen⟩ ?_ ?_
      · exact List.mem_map.mpr ⟨m, hm, rfl⟩
      · exact h.engine.executeModel_seqId hschedule hw hexecute hm
    · intro hself entry hentry hid
      obtain ⟨m, hm, rfl⟩ := List.mem_map.mp hentry
      rw [h.engine.executeModel_seqId hschedule hw hexecute hm] at hid
      subst hid
      exact hself (List.mem_map_of_mem hm)
  rw [onStepCompletion_hasSlot hcompletion, step_hasSlot hstep, hslots, hentries, hfinish]

/-- The table of a worker after a batch. -/
theorem SlotTableInv.executeModel_table (h : SlotTableInv cfg e)
    (hschedule : e.scheduleStep cfg inp = .ok (e₁, out, queue)) (hw : w ∈ e₁.workers)
    (hexecute : w.executeModel cfg.padInputs out queue inp.sampled = .ok w') :
    TableInv w'.cacheEngine ∧
      w'.cacheEngine.config.maxBatchSize = cfg.scheduler.maxNumSeqs := by
  obtain ⟨w₁, c, hbegin, hstep, -, hcompletion⟩ := executeModel_eq_ok hexecute
  obtain ⟨htable, hsize, -⟩ := h.delivered hschedule hw hbegin
  -- there was model input for every entry, so no context is empty
  have hpos : ∀ m ∈ w₁.replica.metadataList out, 0 < contextLen m := by
    intro m hm
    obtain ⟨rows, hrows⟩ := executeModel_inputs hexecute hbegin
    obtain ⟨new, hnew⟩ := Executor.inputRows_ok_of_prepareInputs hrows m hm
    exact contextLen_pos hnew
  obtain ⟨htable₂, hconfig₂⟩ := htable.step hpos hstep
  obtain ⟨htable₃, hconfig₃⟩ := htable₂.onStepCompletion hcompletion
  exact ⟨htable₃, by rw [hconfig₃, hconfig₂, hsize]⟩

theorem SlotTableInv.addRequest {req : Request} (h : SlotTableInv cfg e)
    (hengine : EngineInv e') (hchunk : ChunkInv cfg e') (howned : SlotsOwned e')
    (hadd : AddView cfg req e e') : SlotTableInv cfg e' := by
  constructor
  case engine => exact hengine
  case chunk => exact hchunk
  case owned => exact howned
  case length =>
    rw [hadd.scheduler]
    exact h.length
  case queue_nodup =>
    rw [hadd.scheduler]
    exact h.queue_nodup
  case parked =>
    rw [hadd.scheduler]
    exact fun id hid => List.mem_append_left _ (h.parked id hid)
  case holds =>
    intro w' hw' id hid
    rw [hadd.scheduler] at hid
    exact hadd.cacheEngines (P := fun c => c.HasSlot id) (fun w hw => h.holds w hw id hid) w' hw'
  case tables => exact hadd.cacheEngines h.tables
  case size => exact hadd.cacheEngines (P := fun c => c.config.maxBatchSize = _) h.size

/-- A step that schedules nothing: the queue it took was empty. -/
theorem SlotTableInv.idle (h : SlotTableInv cfg e) (hengine : EngineInv e₁)
    (hchunk : ChunkInv cfg e₁) (howned : SlotsOwned e₁)
    (hcover : dynamicChunksCover cfg e = true)
    (hschedule : e.scheduleStep cfg inp = .ok (e₁, out, queue)) (hempty : out.isEmpty = true) :
    SlotTableInv cfg e₁ := by
  have hworkers := BaseLLMEngine.scheduleStep_workers hschedule
  have hspec := BaseLLMEngine.scheduleStep_spec h.engine.nodup hschedule
  obtain ⟨-, hbm⟩ := scheduleStep_preemptionQueue hschedule
  have hnobody : out.batchIds = [] := by
    simp [SchedulerOutputs.batchIds, scheduledIds, List.isEmpty_iff.mp hempty]
  constructor
  case engine => exact hengine
  case chunk => exact hchunk
  case owned => exact howned
  case length => exact schedule_length (scheduleStep_schedule hschedule) h.length
  case queue_nodup => exact hbm ▸ hspec.preempted_nodup
  case parked => exact hbm ▸ h.chunk.parked h.engine hcover hschedule
  case holds =>
    intro w hw id hid
    refine h.holds w (hworkers ▸ hw) id (.inl ?_)
    rcases hid with hid | hid
    · refine ((hspec.running id hid).resolve_left ?_).1
      rw [hnobody]
      exact List.not_mem_nil
    · exact (hspec.preempted id (hbm ▸ hid)).1
  case tables => exact hworkers ▸ h.tables
  case size => exact hworkers ▸ h.size

/-- A step that executes a batch. -/
theorem SlotTableInv.execute (h : SlotTableInv cfg e) (hengine : EngineInv e')
    (hchunk : ChunkInv cfg e') (howned : SlotsOwned e')
    (hguard : keepsSlots cfg e (.step inp) = true)
    (hschedule : e.scheduleStep cfg inp = .ok (e₁, out, queue))
    (hexecute : e₁.executeStep cfg inp out queue = .ok e') : SlotTableInv cfg e' := by
  obtain ⟨hdelivers, hcover⟩ := Bool.and_eq_true_iff.mp hguard
  have hvisible : noHiddenStop cfg e inp = true := (Bool.and_eq_true_iff.mp hdelivers).2
  have hspec := BaseLLMEngine.scheduleStep_spec h.engine.nodup hschedule
  obtain ⟨-, hbm⟩ := scheduleStep_preemptionQueue hschedule
  have hparked := h.chunk.parked h.engine hcover hschedule
  have hview := executeStep_view (hspec.wellFormed h.engine.nodup) hexecute
  obtain ⟨-, -, hmodels, -, hscheduler⟩ := BaseLLMEngine.executeStep_eq_ok hexecute
  have hqueue : e'.scheduler.blockManager.preemptionQueue = out.preemptedSeqIds := by
    rw [hscheduler, onStepCompleted_preemptionQueue, hbm]
  have hrunning : ∀ id ∈ e'.scheduler.running,
      id ∈ e₁.scheduler.running ∧ (e'.replica.objs id).isFinished = false := by
    intro id hid
    rw [hscheduler] at hid
    obtain ⟨hid, hunfinished⟩ := List.mem_filter.mp hid
    exact ⟨hid, by simpa using hunfinished⟩
  have hafter : ∀ w' ∈ e'.workers, ∃ w ∈ e₁.workers,
      w.executeModel cfg.padInputs out queue inp.sampled = .ok w' :=
    fun w' hw' => exists_mem_of_mapM_ok hmodels w' hw'
  constructor
  case engine => exact hengine
  case chunk => exact hchunk
  case owned => exact howned
  case length =>
    rw [hscheduler]
    exact (List.length_filter_le ..).trans
      (schedule_length (scheduleStep_schedule hschedule) h.length)
  case queue_nodup => exact hqueue ▸ hspec.preempted_nodup
  case parked =>
    rw [hqueue, hscheduler]
    exact hparked
  case holds =>
    intro w' hw' id hid
    obtain ⟨w, hw, hmodel⟩ := hafter w' hw'
    rw [h.executeModel_hasSlot_iff hschedule hw hmodel]
    rw [hqueue] at hid
    rcases hid with hid | hid
    · obtain ⟨hid, hunfinished⟩ := hrunning id hid
      refine ⟨(hspec.running id hid).elim .inr fun hold => .inl hold.1, fun hbatch => ?_⟩
      -- the worker's copy goes on as the engine's does
      obtain ⟨m, hm, rfl⟩ := List.mem_map.mp hbatch
      have hagrees := h.engine.batch_agrees hvisible hschedule hview hw
        (executeModel_view (hspec.wellFormed h.engine.nodup) hmodel) hm
      exact hagrees.1.trans hunfinished
    · -- a victim was running and is not in the batch
      refine ⟨.inl (hspec.preempted id hid).1, fun hbatch => ?_⟩
      exact absurd hbatch (hspec.notMem_batch h.engine.nodup (hparked id hid))
  case tables =>
    intro w' hw'
    obtain ⟨w, hw, hmodel⟩ := hafter w' hw'
    exact (h.executeModel_table hschedule hw hmodel).1
  case size =>
    intro w' hw'
    obtain ⟨w, hw, hmodel⟩ := hafter w' hw'
    exact (h.executeModel_table hschedule hw hmodel).2

/-- **Step lemma**: every event that meets the condition keeps the three tables in order. -/
theorem SlotTableInv.exec {event : Event} (h : SlotTableInv cfg e)
    (hguard : keepsSlots cfg e event = true) (hexec : e.exec cfg event = .ok e') :
    SlotTableInv cfg e' := by
  obtain ⟨hdelivers, hcover⟩ := Bool.and_eq_true_iff.mp hguard
  have hengine := h.engine.exec hexec
  have hchunk := h.chunk.exec h.engine hexec
  have howned := h.owned.exec h.engine hdelivers hexec
  cases event with
  | addRequest req => exact h.addRequest hengine hchunk howned (addRequest_view hexec)
  | step inp =>
    obtain ⟨e₁, out, queue, hschedule, hrest⟩ := BaseLLMEngine.exec_step_eq_ok hexec
    rcases hrest with ⟨hempty, rfl⟩ | ⟨-, hexecute⟩
    · exact h.idle hengine hchunk howned hcover hschedule hempty
    · exact h.execute hengine hchunk howned hguard hschedule hexecute

/-! ## Runs -/

/-- **Batch slots do not run out**: with the vLLM or the Sarathi scheduler, in every run whose
    steps meet the condition, at every step boundary the tables of every worker agree, and in the
    next step no slot is missing and no release raises. -/
theorem slots_suffice_of_keepsSlots (cfg : EngineConfig)
    (hpolicy : (∃ n, cfg.scheduler.policy = .vllm n) ∨
      ∃ chunks, cfg.scheduler.policy = .sarathi chunks)
    (hreach : ReachesFrom cfg (IsSlotStart cfg) (fun e event => keepsSlots cfg e event = true) e) :
    (∀ w ∈ e.workers, TableSound w.cacheEngine) ∧ ∀ inp, SlotCallsSucceed cfg inp e := by
  have hinv : SlotTableInv cfg e :=
    hreach.invariant (SlotTableInv cfg) (fun _ hstart => .start hstart)
      fun _ _ _ h hguard hexec => h.exec hguard hexec
  exact ⟨fun w hw => (hinv.tables w hw).sound, hinv.slotCallsSucceed hpolicy⟩

/-! ### Two runs -/

theorem isSlotStart_vattnEngine (numGpuBlocks : Nat) :
    IsSlotStart vllmConfig (vattnEngine numGpuBlocks) := by
  refine ⟨.new 2 numGpuBlocks, _, rfl, fun c hc => ?_, rfl⟩
  obtain rfl := List.mem_singleton.mp hc
  exact ⟨⟨_, _, _, _, rfl⟩, rfl⟩

/-- Both slots are in use after an eviction and a readmission. -/
theorem evictingRun_slots_suffice :
    ∃ e, (vattnEngine 3).run vllmConfig evictingRun = .ok e ∧
      (∀ w ∈ e.workers, TableSound w.cacheEngine) ∧ ∀ inp, SlotCallsSucceed vllmConfig inp e := by
  have hsucceeds : ((vattnEngine 3).run vllmConfig evictingRun).map (·.scheduler.running) =
      .ok [0, 1] := by rfl
  obtain ⟨e, hrun, -⟩ := map_eq_ok.mp hsucceeds
  refine ⟨e, hrun, slots_suffice_of_keepsSlots vllmConfig (.inl ⟨4, rfl⟩) ?_⟩
  exact Reaches.foldlM (fun _ _ => id) (.init (isSlotStart_vattnEngine 3)) (by decide +kernel) hrun

/-- Two requests that stop at their first token, and a third one. -/
def hiddenStopsRun : List Event :=
  [.addRequest ⟨0, [], [1], 0, { stop := [['a']] }⟩,
    .addRequest ⟨1, [], [2], 1, { stop := [['a']] }⟩, simpleStep, simpleStep,
    simpleRequest 2 [3]]

/-- The workers do not see the stop string and keep both slots, though nobody is running; the
    third request finds none. -/
theorem hiddenStopsRun_out_of_slots :
    ∃ e, (vattnEngine 3).run textConfig hiddenStopsRun = .ok e ∧ e.scheduler.running = [] ∧
      ¬ SlotCallsSucceed textConfig ⟨9, fun _ => 5⟩ e ∧
      e.exec textConfig simpleStep = .error
        (.assertionError "Failed to allocate new batch idx. This is not expected...") := by
  have hstate : ((vattnEngine 3).run textConfig hiddenStopsRun >>= fun e =>
      (e.scheduleStep textConfig ⟨9, fun _ => 5⟩).bind fun step =>
        (step.1.workers.mapM (BaseWorker.beginStep step.2.1 step.2.2)).map fun workers =>
          (e.scheduler.running,
            workers.map fun w =>
              ((w.cacheEngine.recordBatch (w.replica.metadataList step.2.1)).map fun _ => ()),
            (e.exec textConfig simpleStep).map fun _ => ())) =
      .ok ([], [.error (.assertionError
          "Failed to allocate new batch idx. This is not expected...")],
        .error (.assertionError
          "Failed to allocate new batch idx. This is not expected...")) := by
    rfl
  obtain ⟨e, hrun, hrest⟩ := seq_eq_ok.mp hstate
  obtain ⟨⟨e₁, out, queue⟩, hschedule, hbegins⟩ := seq_eq_ok.mp hrest
  obtain ⟨workers, hworkers, hend⟩ := map_eq_ok.mp hbegins
  simp only [Prod.mk.injEq] at hend
  obtain ⟨hrunning, hrecords, hexec⟩ := hend
  refine ⟨e, hrun, hrunning, fun hsucceed => ?_, ?_⟩
  · obtain ⟨w₁, hw₁, hfails⟩ := List.mem_map.mp (hrecords ▸ List.mem_singleton_self _)
    obtain ⟨w, hw, hbegin⟩ := exists_mem_of_mapM_ok hworkers w₁ hw₁
    obtain ⟨c, hrecord⟩ := ((hsucceed e₁ out queue hschedule w hw).2 w₁ hbegin).1
    rw [hrecord] at hfails
    cases hfails
  · cases hstep : e.exec textConfig simpleStep with
    | ok e' =>
      rw [hstep] at hexec
      cases hexec
    | error err =>
      rw [hstep] at hexec
      cases hexec
      rfl

end VAttention.Engine
