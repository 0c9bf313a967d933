import VAttention.Engine.Paging
import VAttention.Scheduler.TableLengths
import VAttention.Worker.Replay

/-!
# The workers follow the scheduler's block tables

The scheduler frees, appends and allocates in the order in which its loop meets the sequences, and
asks each time whether there are free blocks.  A worker gets the outcome only.  It frees all evicted
sequences first, goes through the batch in list order, and never asks.  Both orders lead to tables
of the same lengths, although not to the same blocks.

## Layers

- **Layer A**: the beginning of a step, in which the worker repeats what the scheduler has done.
- **Layer B**: the end of a step, in which both free the sequences that have finished.
-/

namespace VAttention.Engine

open VAttention.Core VAttention.Lib VAttention.Scheduler VAttention.Manager VAttention.Worker
open PagedBlockManager (InSync)

variable {γ : Type} [CacheEngine γ] {cfg : EngineConfig} {numBlocks : Nat} {inp : StepInput}
  {out : SchedulerOutputs} {queue : List SeqId} {e e₁ e' : BaseLLMEngine PagedBlockManager γ}
  {w w₁ w' : BaseWorker PagedBlockManager γ}

/-! ## Layer A: the beginning of a step -/

/-- The assertions of a worker's round hold. -/
theorem EngineInv.begins (hinv : EngineInv e)
    (hschedule : e.scheduleStep cfg inp = .ok (e₁, out, queue)) (hw : w ∈ e.workers) :
    Begins out w.replica.view := by
  have hspec := BaseLLMEngine.scheduleStep_spec hinv.nodup hschedule
  refine begins_of_schedule hspec hinv.nodup (fun id hid => .inr ?_) fun id hid => ?_
  · have hold := (hspec.objs_of_mem hinv.nodup
      (List.mem_append_right _ (hspec.batch_running id hid))).1
    rcases List.mem_append.mp hold with hwaiting | hrunning
    · exact hinv.waiting id hwaiting
    · exact .inr (hinv.running id hrunning)
  · rw [(hinv.live id hid).workers w hw]
    exact ⟨trivial, fun _ => rfl⟩

/-- The scheduler's tables after scheduling, in terms of a worker's before it. -/
theorem PagedTables.schedule_tableLength (hpolicy : cfg.scheduler.policy.evictsYoungest = true)
    (hinv : EngineInv e) (h : PagedTables numBlocks e)
    (hschedule : e.scheduleStep cfg inp = .ok (e₁, out, queue)) (hw : w ∈ e.workers)
    (hsync : InSync e.scheduler.blockManager w.replica.ext) (id : SeqId) :
    e₁.scheduler.blockManager.tableLength id =
      replayed out (fun id => (w.replica.objs id).logicalTokenBlocks.length)
        w.replica.ext.tableLength id := by
  have hspec := BaseLLMEngine.scheduleStep_spec hinv.nodup hschedule
  obtain ⟨freeBlocks, -, -, hrun, -, -⟩ := BaseLLMEngine.scheduleStep_eq_ok hschedule
  -- for this manager there is nothing to set or to take
  have hlength := Scheduler.schedule_tableLength hpolicy (by exact h.scheduler) hrun id
  rw [hlength]
  refine replayed_congr (fun a ha => ?_) hsync.tables id
  have hold := (hspec.objs_of_mem hinv.nodup
    (List.mem_append_right _ (hspec.batch_running a ha))).1
  have hcopy : w.replica.objs a = core (e.replica.objs a) :=
    congrArg Prod.fst ((hinv.live a hold).workers w hw)
  rw [hcopy]
  rfl

/-- **The replay succeeds**, and leads to tables of the same lengths. -/
theorem PagedTables.beginStep_inSync (hpolicy : cfg.scheduler.policy.evictsYoungest = true)
    (hinv : EngineInv e) (h : PagedTables numBlocks e)
    (hschedule : e.scheduleStep cfg inp = .ok (e₁, out, queue)) (hw : w ∈ e.workers)
    (hsync : InSync e.scheduler.blockManager w.replica.ext) :
    ∃ w₁, w.beginStep out queue = .ok w₁ ∧
      InSync e₁.scheduler.blockManager w₁.replica.ext := by
  have hwf := (BaseLLMEngine.scheduleStep_spec hinv.nodup hschedule).wellFormed hinv.nodup
  have hlengths := h.schedule_tableLength hpolicy hinv hschedule hw hsync
  obtain ⟨hstate, -⟩ := (h.scheduleStep hpolicy).of_eq_ok hschedule
  have hpaged := h.workers w hw
  obtain ⟨r, hround⟩ := onSchedule_ok hpaged hwf (hinv.begins hschedule hw) hstate.partition
    hlengths
  -- nothing is ever in the queue of this manager
  obtain ⟨-, -, hqueue, -⟩ := BaseLLMEngine.scheduleStep_eq_ok hschedule
  obtain rfl : queue = [] := hqueue
  refine ⟨{ replica := r, cacheEngine := w.cacheEngine },
    seq_eq_ok.mpr ⟨r, hround, seq_eq_ok.mpr ⟨w.cacheEngine, rfl, rfl⟩⟩, ?_⟩
  refine hstate.partition.inSync (onSchedule_paged hpaged hround).1.partition fun id => ?_
  rw [hlengths, onSchedule_tableLength hpaged hwf.batch_nodup hround]

/-! ## Layer B: the end of a step -/

/-- The tables the scheduler keeps: those of the sequences that have not finished. -/
theorem onStepCompleted_tableLength {s : SchedulerState PagedBlockManager} {objs : Heap}
    (id : SeqId) :
    (s.onStepCompleted objs).blockManager.tableLength id =
      if id ∈ s.running ∧ (objs id).isFinished = true then none
      else s.blockManager.tableLength id := by
  have hfree := PagedBlockManager.tableLength_foldl_free
    (s.running.filter fun id => (objs id).isFinished) s.blockManager id
  refine Eq.trans hfree ?_
  simp only [List.mem_filter]

/-- A running sequence that is not in the batch does not finish. -/
theorem EngineInv.not_finished (hinv : EngineInv e)
    (hschedule : e.scheduleStep cfg inp = .ok (e₁, out, queue))
    (hview : ExecuteView cfg inp out e₁ e') {id : SeqId} (hrunning : id ∈ e₁.scheduler.running)
    (hbatch : id ∉ out.batchIds) : (e'.replica.objs id).isFinished = false := by
  have hspec := BaseLLMEngine.scheduleStep_spec hinv.nodup hschedule
  have hmem := List.mem_append_right e₁.scheduler.waiting hrunning
  obtain ⟨hlive, hobjs⟩ := hinv.live_of_schedule hschedule hmem
  obtain ⟨hold, hpre⟩ := (hspec.running id hrunning).resolve_left hbatch
  have hign := (hspec.objs_of_mem hinv.nodup hmem).2.1
  have hsame := (hlive.frame hview hign hpre hbatch).2
  rw [hsame, hobjs, Sequence.isFinished, hinv.running id hold]
  rfl

/-- **Both sides free the same tables** if they finish the same sequences. -/
theorem PagedTables.executeStep_inSync (hpolicy : cfg.scheduler.policy.evictsYoungest = true)
    (hinv : EngineInv e) (h : PagedTables numBlocks e)
    (hschedule : e.scheduleStep cfg inp = .ok (e₁, out, queue)) (hempty : out.isEmpty = false)
    (hw : w ∈ e.workers) (hsync : InSync e.scheduler.blockManager w.replica.ext)
    (hexecute : e₁.executeStep cfg inp out queue = .ok e')
    (hmodel : w.executeModel cfg.padInputs out queue inp.sampled = .ok w')
    (hfinish : ∀ id ∈ out.batchIds,
      (w'.replica.objs id).isFinished = (e'.replica.objs id).isFinished) :
    InSync e'.scheduler.blockManager w'.replica.ext := by
  have hspec := BaseLLMEngine.scheduleStep_spec hinv.nodup hschedule
  have hview := executeStep_view (hspec.wellFormed hinv.nodup) hexecute
  obtain ⟨hstate, hcovered⟩ := (h.scheduleStep hpolicy).of_eq_ok hschedule
  have hstate' := PagedTables.scheduler_step hinv hschedule hstate hcovered (.inr ⟨hempty, hview⟩)
  have hpaged' := executeModel_paged (h.workers w hw) hspec.batch_nodup hmodel
  -- the worker begins the step as above
  obtain ⟨w₁, hbegin, hsync₁⟩ := h.beginStep_inSync hpolicy hinv hschedule hw hsync
  obtain ⟨w₂, -, hbegin₂, -, hcompleted, -⟩ := executeModel_eq_ok hmodel
  obtain rfl : w₂ = w₁ := Except.ok.inj (hbegin₂.symm.trans hbegin)
  refine hstate'.partition.inSync hpaged'.partition fun id => ?_
  have hlength : w'.replica.ext.tableLength id =
      if id ∈ out.batchIds ∧ (w'.replica.objs id).isFinished = true then none
      else w₂.replica.ext.tableLength id :=
    completeLoop_tableLength hspec.batch_nodup hcompleted id
  rw [hlength, hview.scheduler, onStepCompleted_tableLength, hsync₁.tables id]
  have hiff : (id ∈ e₁.scheduler.running ∧ (e'.replica.objs id).isFinished = true) ↔
      (id ∈ out.batchIds ∧ (w'.replica.objs id).isFinished = true) := by
    constructor
    · rintro ⟨hrunning, hfinished⟩
      have hbatch : id ∈ out.batchIds := by
        by_contra hbatch
        rw [hinv.not_finished hschedule hview hrunning hbatch] at hfinished
        cases hfinished
      exact ⟨hbatch, (hfinish id hbatch).trans hfinished⟩
    · rintro ⟨hbatch, hfinished⟩
      exact ⟨hspec.batch_running id hbatch, (hfinish id hbatch).symm.trans hfinished⟩
  simp only [hiff]

/-- **A worker's block manager stays in step with the scheduler's**: take any state that a run of an
    engine with the vLLM, Sarathi or simple chunking policy reaches, so that the copies of the
    sequences agree, a step with a batch, and a worker whose manager has tables for the same
    sequences, of the same lengths, and as many free blocks as the scheduler's.  Then

    - the worker's replay of the scheduler's outputs does not raise, and the two managers agree in
      the same way after it,
    - and they do when the step has been completed, if the same sequences finish on both sides. -/
theorem paged_managers_stay_in_sync (cfg : EngineConfig)
    (hpolicy : cfg.scheduler.policy.evictsYoungest = true)
    (hreach : ReachesFrom cfg (IsPagedStart numBlocks) (fun _ _ => True) e)
    (hschedule : e.scheduleStep cfg inp = .ok (e₁, out, queue)) (hempty : out.isEmpty = false)
    (hw : w ∈ e.workers) (hsync : InSync e.scheduler.blockManager w.replica.ext) :
    (∃ w₁, w.beginStep out queue = .ok w₁ ∧
      InSync e₁.scheduler.blockManager w₁.replica.ext) ∧
    ∀ e' w', e₁.executeStep cfg inp out queue = .ok e' →
      w.executeModel cfg.padInputs out queue inp.sampled = .ok w' →
      (∀ id ∈ out.batchIds,
        (w'.replica.objs id).isFinished = (e'.replica.objs id).isFinished) →
      InSync e'.scheduler.blockManager w'.replica.ext := by
  obtain ⟨hinv, h⟩ := reaches_invariant (PagedTables numBlocks)
    (fun e he => ⟨⟨_, he⟩, .start he⟩)
    (fun _ _ _ hinv h _ hexec => h.exec hpolicy hinv hexec) hreach
  exact ⟨h.beginStep_inSync hpolicy hinv hschedule hw hsync,
    fun e' w' hexecute hmodel hfinish =>
      h.executeStep_inSync hpolicy hinv hschedule hempty hw hsync hexecute hmodel hfinish⟩

/-- The third step evicts the younger sequence.  The scheduler has by then given the older one the
    block that was free, the worker gives it the block of the evicted one: two blocks each. -/
theorem evicting_step_in_sync :
    ∃ e e₁ out queue w w' e', (pagedEngine 3).run vllmConfig (evictingRun.take 4) = .ok e ∧
      e.scheduleStep vllmConfig ⟨9, fun _ => 5⟩ = .ok (e₁, out, queue) ∧
      out.preemptedSeqIds = [1] ∧ e.workers = [w] ∧
      e₁.executeStep vllmConfig ⟨9, fun _ => 5⟩ out queue = .ok e' ∧ e'.workers = [w'] ∧
      e'.scheduler.blockManager.blockTables.lookup 0 = some [2, 0] ∧
      w'.replica.ext.blockTables.lookup 0 = some [2, 1] ∧
      InSync e'.scheduler.blockManager w'.replica.ext := by
  obtain ⟨e, hrun⟩ : ∃ e, (pagedEngine 3).run vllmConfig (evictingRun.take 4) = .ok e := ⟨_, rfl⟩
  obtain ⟨w, e₁, out, queue, w', e', hw, hsame, hschedule, hpre, hempty, hmodel, hexecute, hw',
      hfinish, he, hworker⟩ : ∃ w e₁ out queue w' e', e.workers = [w] ∧
      e.scheduler.blockManager = w.replica.ext ∧
      e.scheduleStep vllmConfig ⟨9, fun _ => 5⟩ = .ok (e₁, out, queue) ∧
      out.preemptedSeqIds = [1] ∧ out.isEmpty = false ∧
      w.executeModel vllmConfig.padInputs out queue (fun _ => 5) = .ok w' ∧
      e₁.executeStep vllmConfig ⟨9, fun _ => 5⟩ out queue = .ok e' ∧ e'.workers = [w'] ∧
      (∀ id ∈ out.batchIds,
        (w'.replica.objs id).isFinished = (e'.replica.objs id).isFinished) ∧
      e'.scheduler.blockManager.blockTables.lookup 0 = some [2, 0] ∧
      w'.replica.ext.blockTables.lookup 0 = some [2, 1] := by
    cases hrun
    exact ⟨_, _, _, _, _, _, rfl, rfl, rfl, rfl, rfl, rfl, rfl, rfl, by decide, rfl, rfl⟩
  have hreach : ReachesFrom vllmConfig (IsPagedStart 3) (fun _ _ => True) e :=
    Reaches.foldlM (fun _ _ _ => trivial) (.init ⟨_, rfl⟩) (checkGuards_true _ _ _) hrun
  have hsync : InSync e.scheduler.blockManager w.replica.ext := by
    rw [hsame]
    exact ⟨fun _ => rfl, rfl⟩
  obtain ⟨-, hcompleted⟩ := paged_managers_stay_in_sync vllmConfig rfl hreach hschedule hempty
    (by rw [hw]; exact List.mem_singleton_self w) hsync
  exact ⟨e, e₁, out, queue, w, w', e', hrun, hschedule, hpre, hw, hexecute, hw', he, hworker,
    hcompleted e' w' hexecute hmodel hfinish⟩

end VAttention.Engine
