import VAttention.Engine.Invariants
import VAttention.Scheduler.Progress

/-!
# Evicted sequences are reset

The scheduler moves an evicted sequence to the waiting list at once; its object is reset by
`on_schedule`, which a step with an empty batch never calls.  The reset is therefore missing
exactly when a step evicts and schedules nothing.
-/

namespace VAttention.Engine

open VAttention.Core VAttention.Lib VAttention.Scheduler VAttention.Manager VAttention.Worker

variable {β γ : Type} [BlockSpaceManager β] [CacheEngine γ] {cfg : EngineConfig}
  {e e' : BaseLLMEngine β γ}

/-- The state of a sequence that can be scheduled from its first token. -/
structure FreshlyWaiting (s : Sequence) : Prop where
  status : s.status = .waiting
  promptTokensProcessed : s.promptTokensProcessed = 0
  promptProcessingFinished : s.promptProcessingFinished = false
  outputTokenIds : s.outputTokenIds = []

/-- Every waiting sequence has been reset. -/
def WaitingReset (e : BaseLLMEngine β γ) : Prop :=
  ∀ id ∈ e.scheduler.waiting, FreshlyWaiting (e.replica.objs id)

/-- The scheduler as `schedule` finds it in a step: the preemption queue taken out, the
    number of free blocks passed on. -/
def schedulerAtStep (e : BaseLLMEngine β γ) : SchedulerState β :=
  let freeBlocks := (e.workers.map fun w => CacheEngine.numFreeBlocks w.cacheEngine).min?
  { e.scheduler with
    blockManager := BlockSpaceManager.setFreeBlocks
      (BlockSpaceManager.takePreemptionQueue e.scheduler.blockManager).2 (freeBlocks.getD 0) }

/-- The first running sequence to ask for a slot gets one, if need be by evicting all
    younger ones. -/
def notStarved (cfg : EngineConfig) (e : BaseLLMEngine β γ) : Event → Bool
  | .addRequest _ => true
  | .step inp => !starved cfg.scheduler inp.now e.replica.objs (schedulerAtStep e)

theorem scheduleStep_schedule {inp : StepInput} {e₁ : BaseLLMEngine β γ} {out : SchedulerOutputs}
    {queue : List SeqId} (h : e.scheduleStep cfg inp = .ok (e₁, out, queue)) :
    schedule cfg.scheduler inp.now e.replica.objs (schedulerAtStep e) =
      .ok (e₁.replica.objs, e₁.scheduler, out) := by
  obtain ⟨freeBlocks, hfree, -, hschedule, -, -⟩ := BaseLLMEngine.scheduleStep_eq_ok h
  unfold schedulerAtStep
  rw [hfree]
  exact hschedule

/-- A step that is not starved evicts nobody or fills its batch. -/
theorem EngineInv.progress {inp : StepInput} {e₁ : BaseLLMEngine β γ} {out : SchedulerOutputs}
    {queue : List SeqId} (h : EngineInv e) (hguard : notStarved cfg e (.step inp) = true)
    (hschedule : e.scheduleStep cfg inp = .ok (e₁, out, queue)) :
    out.isEmpty = false ∨ out.preemptedSeqIds = [] := by
  refine schedule_progress (fun id hid => ?_) (by simpa [notStarved] using hguard)
    (scheduleStep_schedule hschedule)
  simp [Sequence.isPaused, h.running id hid]

omit [BlockSpaceManager β] [CacheEngine γ] in
theorem freshlyWaiting_recomputed (s : Sequence) : FreshlyWaiting (recomputed s) :=
  ⟨rfl, rfl, rfl, rfl⟩

/-- A call keeps the waiting sequences reset if it is not starved. -/
theorem WaitingReset.exec {event : Event} (hinv : EngineInv e) (h : WaitingReset e)
    (hguard : notStarved cfg e event = true) (hexec : e.exec cfg event = .ok e') :
    WaitingReset e' := by
  cases event with
  | addRequest req =>
    have hadd := addRequest_view hexec
    intro id hid
    rw [hadd.scheduler] at hid
    rcases List.mem_append.mp hid with hid | hid
    · rw [hadd.of_ne (hinv.ne_of_mem hadd (List.mem_append_left _ hid))]
      exact h id hid
    · obtain rfl := List.mem_singleton.mp hid
      rw [hadd.objs_self]
      exact ⟨rfl, rfl, rfl, rfl⟩
  | step inp =>
    obtain ⟨e₁, out, queue, hschedule, hfinishes⟩ := hinv.exec_step hexec
    intro id hid
    rcases (hinv.waiting_cases hschedule hfinishes hid).2 with ⟨hold, hsame⟩ | ⟨-, hpre, hobjs⟩
    · rw [hsame]
      exact h id hold
    · -- evicted in this step, so the batch is not empty and the reset has run
      have hne : out.preemptedSeqIds ≠ [] := List.ne_nil_of_mem hpre
      rw [hobjs, (hinv.progress hguard hschedule).resolve_right hne]
      exact freshlyWaiting_recomputed _

/-- **Evicted sequences are reset before they can be scheduled again**: for every policy,
    block manager and cache engine, in every run whose steps are not starved, all waiting
    sequences are fresh at every boundary between two calls. -/
theorem waiting_reset_of_not_starved (cfg : EngineConfig) {e : BaseLLMEngine β γ}
    (hreach : ReachesFrom cfg IsStart (fun e event => notStarved cfg e event = true) e) :
    WaitingReset e :=
  (reaches_invariant_of_start WaitingReset
    (fun _ _ => by simp [WaitingReset, BaseLLMEngine.start])
    (fun _ _ _ hinv hreset hguard hexec => hreset.exec hinv hguard hexec) hreach).2

/-! ### Two runs -/

/-- The vLLM policy over blocks of two tokens, for a model of four tokens. -/
def vllmConfig : EngineConfig where
  scheduler := {
    policy := .vllm 4
    maxNumSeqs := 2
    maxModelLen := 4
    numPipelineStages := 1
    vllm_limit := by
      rintro n ⟨⟩
      decide }
  blockSize := 2
  eosTokenId := none
  detokenize _ _ _ _ := ⟨[], [], 0, 0⟩
  padInputs := true

/-- An engine with one worker and a paged cache of the given number of blocks. -/
def pagedEngine (numGpuBlocks : Nat) : BaseLLMEngine PagedBlockManager PagedCacheEngine :=
  .start (.newVllm numGpuBlocks) [⟨numGpuBlocks⟩]

/-- A request with default sampling parameters. -/
def simpleRequest (id : SeqId) (promptTokenIds : List TokenId) : Event :=
  .addRequest ⟨id, [], promptTokenIds, id, {}⟩

/-- A step at time 9 in which the model yields token 5 for every sequence. -/
def simpleStep : Event := .step ⟨9, fun _ => 5⟩

/-- Two prompts of two tokens over three blocks: in the third step the older sequence takes
    the last block and the younger one is evicted. -/
def evictingRun : List Event :=
  [simpleRequest 0 [1, 2], simpleRequest 1 [3, 4], simpleStep, simpleStep, simpleStep]

theorem evictingRun_resets :
    ∃ e, (pagedEngine 3).run vllmConfig evictingRun = .ok e ∧ e.scheduler.waiting = [1] ∧
      WaitingReset e := by
  have hwaiting : ((pagedEngine 3).run vllmConfig evictingRun).map (·.scheduler.waiting) =
      .ok [1] := by rfl
  obtain ⟨e, hrun, hlist⟩ := map_eq_ok.mp hwaiting
  refine ⟨e, hrun, hlist, waiting_reset_of_not_starved vllmConfig ?_⟩
  exact Reaches.foldlM (fun _ _ => id) (.init ⟨_, _, rfl⟩) (by decide +kernel) hrun

/-- One prompt of three tokens over two blocks. -/
def starvedRun : List Event := [simpleRequest 0 [1, 2, 3], simpleStep, simpleStep]

/-- The second step evicts the only sequence and returns early: it waits, but paused and with
    its prompt marked as processed. -/
theorem starvedRun_not_reset :
    ∃ e, (pagedEngine 2).run vllmConfig starvedRun = .ok e ∧ ¬ WaitingReset e := by
  have hstate : ((pagedEngine 2).run vllmConfig starvedRun).map
      (fun e => (e.scheduler.waiting, (e.replica.objs 0).status)) = .ok ([0], .paused) := by rfl
  obtain ⟨e, hrun, hstate⟩ := map_eq_ok.mp hstate
  obtain ⟨hwaiting, hpaused⟩ := Prod.mk.inj hstate
  refine ⟨e, hrun, fun hreset => ?_⟩
  have hstatus := (hreset 0 (by simp [hwaiting])).status
  rw [hpaused] at hstatus
  cases hstatus

end VAttention.Engine
