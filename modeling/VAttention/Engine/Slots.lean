import VAttention.Engine.Context
import VAttention.Engine.Termination
import VAttention.Scheduler.Productive
import VAttention.Worker.Slots

/-!
# Every request slot has an owner

An evicted sequence keeps its slot on the workers until the preemption queue is delivered to
them, with the batch of a later step.  A step takes the queue out of the block manager first,
so the queue is lost if its batch turns out to be empty.
-/

namespace VAttention.Engine

open VAttention.Core VAttention.Lib VAttention.Scheduler VAttention.Manager VAttention.Worker
open VAttnCacheEngine

/-- An engine with the vAttention block manager and cache engine. -/
abbrev VAttnEngine := BaseLLMEngine VAttentionBlockManager VAttnCacheEngine

variable {cfg : EngineConfig} {inp : StepInput} {e e₁ e' : VAttnEngine} {out : SchedulerOutputs}
  {queue : List SeqId}

/-- Every sequence with a slot on a worker is running or waits for its release. -/
def SlotsOwned (e : VAttnEngine) : Prop :=
  ∀ w ∈ e.workers, ∀ id, w.cacheEngine.HasSlot id →
    id ∈ e.scheduler.running ∨ id ∈ e.scheduler.blockManager.preemptionQueue

/-- A step that takes a preemption queue has a batch to deliver it with, and no token completes
    a stop string that a worker does not see. -/
def deliversQueue (cfg : EngineConfig) (e : VAttnEngine) : Event → Bool
  | .addRequest _ => true
  | .step inp =>
    (e.scheduler.blockManager.preemptionQueue.isEmpty ||
      productive cfg.scheduler inp.now e.replica.objs (schedulerAtStep e)) &&
    noHiddenStop cfg e inp

/-! ## The preemption queue of a call of `schedule` -/

/-- Only eviction touches the preemption queue. -/
theorem SchedStep.preemptionQueue_eq {scfg : SchedulerConfig} {now : Time} {phase : Phase}
    {σ σ' : LoopState VAttentionBlockManager} (hstep : SchedStep scfg now phase σ σ')
    (h : σ.blockManager.preemptionQueue = σ.preempted) :
    σ'.blockManager.preemptionQueue = σ'.preempted := by
  cases hstep with
  | keep | setAside | prefill | orcaDecode | ignore | requeue | takePrefills => exact h
  | decode _ _ _ happend =>
    cases happend
    rw [VAttentionBlockManager.appendSlot_eq]
    exact h
  | enter _ _ _ _ hallocate =>
    cases hallocate
    exact h
  | @preempt _ _ front victim =>
    obtain ⟨credited, -, active, hfree⟩ := σ.blockManager.free_eq victim (σ.objs victim)
    simp only [BlockSpaceManager.enqueuePreempted, BlockSpaceManager.free, hfree]
    rw [h]

theorem scheduleStep_preemptionQueue (h : e.scheduleStep cfg inp = .ok (e₁, out, queue)) :
    queue = e.scheduler.blockManager.preemptionQueue ∧
      e₁.scheduler.blockManager.preemptionQueue = out.preemptedSeqIds := by
  obtain ⟨freeBlocks, -, hqueue, hschedule, -, -⟩ := BaseLLMEngine.scheduleStep_eq_ok h
  refine ⟨hqueue, ?_⟩
  exact schedule_manager_invariant
    (fun manager preempted => manager.preemptionQueue = preempted) rfl rfl
    (fun _ _ _ hstep => SchedStep.preemptionQueue_eq hstep) hschedule

theorem onStepCompleted_preemptionQueue (objs : Heap) (s : SchedulerState VAttentionBlockManager) :
    (s.onStepCompleted objs).blockManager.preemptionQueue = s.blockManager.preemptionQueue := by
  refine onStepCompleted_manager_invariant
    (fun manager : VAttentionBlockManager =>
      manager.preemptionQueue = s.blockManager.preemptionQueue) rfl ?_
  intro manager id seq hsame
  obtain ⟨credited, -, active, hfree⟩ := manager.free_eq id seq
  simp only [BlockSpaceManager.free, hfree]
  exact hsame

/-! ## Preservation -/

/-- A running sequence keeps running or is evicted. -/
theorem EngineInv.running_or_preempted (h : EngineInv e)
    (hschedule : e.scheduleStep cfg inp = .ok (e₁, out, queue)) {id : SeqId}
    (hid : id ∈ e.scheduler.running) :
    id ∈ e₁.scheduler.running ∨ id ∈ out.preemptedSeqIds := by
  have hspec := BaseLLMEngine.scheduleStep_spec h.nodup hschedule
  have hmem := hspec.perm.mem_iff.mpr (List.mem_append_right e.scheduler.waiting hid)
  rw [List.mem_append, List.mem_append] at hmem
  rcases hmem with hwaiting | hrunning | hignored
  · refine .inr ((hspec.waiting id hwaiting).resolve_left fun hold => ?_)
    exact (List.nodup_append.mp h.nodup).2.2 id hold id hid rfl
  · exact .inl hrunning
  · -- an ignored sequence was waiting
    have hstatus := (hspec.ignored id hignored).1
    rw [h.running id hid] at hstatus
    cases hstatus

theorem EngineInv.nonempty_of_deliversQueue (h : EngineInv e)
    (hguard : deliversQueue cfg e (.step inp) = true)
    (hschedule : e.scheduleStep cfg inp = .ok (e₁, out, queue)) :
    queue = [] ∨ out.isEmpty = false := by
  rw [(scheduleStep_preemptionQueue hschedule).1, ← List.isEmpty_iff]
  have hcases := Bool.or_eq_true_iff.mp (Bool.and_eq_true_iff.mp hguard).1
  refine hcases.imp_right fun hproductive => ?_
  refine schedule_nonempty_of_productive (fun id hid => ?_) hproductive
    (scheduleStep_schedule hschedule)
  simp [Sequence.isPaused, h.running id hid]

/-- The slots of a worker after a batch: those it had, except for the delivered queue, and
    those of the entries that have not finished. -/
theorem EngineInv.executeModel_hasSlot (h : EngineInv e)
    (hschedule : e.scheduleStep cfg inp = .ok (e₁, out, queue))
    {w w' : BaseWorker VAttentionBlockManager VAttnCacheEngine} (hw : w ∈ e₁.workers)
    (hexecute : w.executeModel cfg.padInputs out queue inp.sampled = .ok w') {id : SeqId}
    (hslot : w'.cacheEngine.HasSlot id) :
    id ∈ out.batchIds ∧ (w'.replica.objs id).isFinished = false ∨
      id ∉ out.batchIds ∧ w.cacheEngine.HasSlot id ∧ id ∉ queue := by
  obtain ⟨w₁, c, hbegin, hstep, -, hcompletion⟩ := executeModel_eq_ok hexecute
  obtain ⟨hc, hunfinished⟩ := (onStepCompletion_hasSlot hcompletion).mp hslot
  by_cases hbatch : id ∈ out.batchIds
  · obtain ⟨m, hm, rfl⟩ := List.mem_map.mp hbatch
    refine .inl ⟨hbatch, hunfinished ⟨w'.replica.objs m.seqId, m.promptChunkLen⟩ ?_ ?_⟩
    · exact List.mem_map_of_mem (f := fun m : SequenceScheduleMetadata =>
        (⟨w'.replica.objs m.seqId, m.promptChunkLen⟩ : SequenceMetadata)) hm
    · exact h.executeModel_seqId hschedule hw hexecute hm
  · refine .inr ⟨hbatch, ?_⟩
    -- `step` gives slots to entries of the batch only
    have hkept : w₁.cacheEngine.HasSlot id := by
      refine ((step_hasSlot hstep).mp hc).resolve_right ?_
      rintro ⟨entry, hentry, rfl⟩
      obtain ⟨m, hm, rfl⟩ := List.mem_map.mp hentry
      obtain ⟨-, hid, hobjs⟩ := h.beginStep_objs hschedule hw hbegin hm
      apply hbatch
      rw [hobjs]
      have hself : (core (entering out m.seqId (e.replica.objs m.seqId))).seqId = m.seqId :=
        (entering_seqId out m.seqId _).trans hid
      rw [hself]
      exact List.mem_map_of_mem hm
    exact (preemptRequests_hasSlot (beginStep_preemptRequests hbegin)).mp hkept

theorem SlotsOwned.exec {event : Event} (hinv : EngineInv e) (h : SlotsOwned e)
    (hguard : deliversQueue cfg e event = true) (hexec : e.exec cfg event = .ok e') :
    SlotsOwned e' := by
  cases event with
  | addRequest req =>
    have hadd := addRequest_view hexec
    intro w' hw' id
    rw [hadd.scheduler]
    exact hadd.cacheEngines (P := fun c => c.HasSlot id → _) (fun w hw => h w hw id) w' hw'
  | step inp =>
    obtain ⟨e₁, out, queue, hschedule, hrest⟩ := BaseLLMEngine.exec_step_eq_ok hexec
    obtain ⟨hqueue, hbm⟩ := scheduleStep_preemptionQueue hschedule
    have hworkers := BaseLLMEngine.scheduleStep_workers hschedule
    -- a sequence whose slot is not being released runs on or joins the new queue
    have hmoves : ∀ w ∈ e.workers, ∀ id, w.cacheEngine.HasSlot id → id ∉ queue →
        id ∈ e₁.scheduler.running ∨ id ∈ out.preemptedSeqIds := by
      intro w hw id hslot hnot
      exact hinv.running_or_preempted hschedule
        ((h w hw id hslot).resolve_right (hqueue ▸ hnot))
    rcases hrest with ⟨hempty, rfl⟩ | ⟨-, hexecute⟩
    -- the queue is not delivered, so it must be empty
    · have hnil : queue = [] :=
        (hinv.nonempty_of_deliversQueue hguard hschedule).resolve_right (by simp [hempty])
      intro w hw id hslot
      rw [hbm]
      exact hmoves w (hworkers ▸ hw) id hslot (by simp [hnil])
    · have hspec := BaseLLMEngine.scheduleStep_spec hinv.nodup hschedule
      have hview := executeStep_view (hspec.wellFormed hinv.nodup) hexecute
      obtain ⟨-, -, hmodels, -, -⟩ := BaseLLMEngine.executeStep_eq_ok hexecute
      intro w' hw' id hslot
      obtain ⟨w, hw, hmodel⟩ := exists_mem_of_mapM_ok hmodels w' hw'
      rw [hview.scheduler, onStepCompleted_preemptionQueue, hbm]
      rcases hinv.executeModel_hasSlot hschedule hw hmodel hslot with
        ⟨hbatch, hunfinished⟩ | ⟨hbatch, hold, hnot⟩
      · -- the engine's copy goes on as well, so the scheduler keeps the sequence
        obtain ⟨m, hm, rfl⟩ := List.mem_map.mp hbatch
        have hagrees := hinv.batch_agrees (Bool.and_eq_true_iff.mp hguard).2 hschedule hview hw
          (executeModel_view (hspec.wellFormed hinv.nodup) hmodel) hm
        have hsame : (w'.replica.objs m.seqId).isFinished = (e'.replica.objs m.seqId).isFinished :=
          hagrees.1
        refine .inl (List.mem_filter.mpr ⟨hspec.batch_running _ hbatch, ?_⟩)
        rw [← hsame, hunfinished]
        rfl
      -- evicted, or running and untouched by the batch
      · by_cases hpre : id ∈ out.preemptedSeqIds
        · exact .inr hpre
        · have hrunning := (hmoves w (hworkers ▸ hw) id hold hnot).resolve_right hpre
          have hmem := List.mem_append_right e₁.scheduler.waiting hrunning
          obtain ⟨hlive, hobjs⟩ := hinv.live_of_schedule hschedule hmem
          have hignored := (hspec.objs_of_mem hinv.nodup hmem).2.1
          obtain ⟨-, hsame⟩ := hlive.frame hview hignored hpre hbatch
          obtain ⟨hwas, -⟩ := (hspec.running id hrunning).resolve_left hbatch
          refine .inl (List.mem_filter.mpr ⟨hrunning, ?_⟩)
          rw [hsame, hobjs]
          simp [Sequence.isFinished, hinv.running id hwas, SequenceStatus.isFinished]

theorem SlotsOwned.start (hstart : IsVAttnStart e) : SlotsOwned e := by
  obtain ⟨blockManager, cacheEngines, hnew, rfl⟩ := hstart
  intro w hw id hslot
  obtain ⟨c, hc, rfl⟩ := List.mem_map.mp hw
  obtain ⟨config, vattnAsync, newPage, cacheMemSize, rfl⟩ := hnew c hc
  exact absurd rfl hslot

/-- **No slot is lost**: in every run whose steps deliver the preemption queue they take and
    stop no sequence behind the workers' backs, every slot belongs to a sequence that is running
    or queued for release. -/
theorem slots_owned_of_deliversQueue (cfg : EngineConfig) {e : VAttnEngine}
    (hreach : ReachesFrom cfg IsVAttnStart (fun e event => deliversQueue cfg e event = true) e) :
    SlotsOwned e := by
  exact (reaches_invariant SlotsOwned (fun _ hstart => ⟨hstart.isStart, .start hstart⟩)
    (fun _ _ _ hinv howned hguard hexec => howned.exec hinv hguard hexec) hreach).2

/-! ### Two runs -/

/-- The younger of two sequences is evicted in the second step; the third one delivers the
    queue and admits it again. -/
theorem evictingRun_slots_owned :
    ∃ e, (vattnEngine 3).run vllmConfig evictingRun = .ok e ∧ SlotsOwned e := by
  have hsucceeds : ((vattnEngine 3).run vllmConfig evictingRun).map (·.scheduler.running) =
      .ok [0, 1] := by rfl
  obtain ⟨e, hrun, -⟩ := map_eq_ok.mp hsucceeds
  refine ⟨e, hrun, slots_owned_of_deliversQueue vllmConfig ?_⟩
  exact Reaches.foldlM (fun _ _ => id) (.init (isVAttnStart_vattnEngine 3)) (by decide +kernel) hrun

/-- One prompt of three tokens over two blocks. -/
def losingRun : List Event :=
  [simpleRequest 0 [1, 2, 3], simpleStep, simpleStep, simpleStep, simpleStep]

/-- The third step evicts the only sequence and schedules nothing; the fourth takes the queue,
    schedules nothing again and forgets the queue, while the slot is still taken. -/
theorem losingRun_loses_slot :
    ∃ e, (vattnEngine 2).run vllmConfig losingRun = .ok e ∧ ¬ SlotsOwned e := by
  have hstate : ((vattnEngine 2).run vllmConfig losingRun).map (fun e =>
      (e.workers.map fun w => w.cacheEngine.seqToBatchIdx 0, e.scheduler.running,
        e.scheduler.blockManager.preemptionQueue)) = .ok ([some 0], [], []) := by rfl
  obtain ⟨e, hrun, hstate⟩ := map_eq_ok.mp hstate
  obtain ⟨hslots, hlists⟩ := Prod.mk.inj hstate
  obtain ⟨hrunning, hqueue⟩ := Prod.mk.inj hlists
  obtain ⟨w, hw, hslot⟩ := List.mem_map.mp (hslots ▸ List.mem_singleton_self (some 0))
  refine ⟨e, hrun, fun howned => ?_⟩
  have hcases := howned w hw 0 (by simp [HasSlot, hslot])
  simp [hrunning, hqueue] at hcases

end VAttention.Engine
