import VAttention.Engine.Readmission
import VAttention.Scheduler.Promises

/-!
# Promises over whole runs

In every state that a run of the engine reaches, the running sequences are allocated, so an
iteration credits the blocks of everything it evicts.  The answers of `can_allocate` are then about
the iteration alone exactly if it starts without promises.  vLLM and Sarathi clear the counter at
the start of every iteration.  Orca, FasterTransformer and simple chunking never do, and after
their first admission the counter is not zero any more.
-/

namespace VAttention.Engine

open VAttention.Core VAttention.Lib VAttention.Scheduler VAttention.Manager VAttention.Worker

variable {γ : Type} [CacheEngine γ] {cfg : EngineConfig} {inp : StepInput}
  {e e₁ e' : BaseLLMEngine VAttentionBlockManager γ} {out : SchedulerOutputs} {queue : List SeqId}

/-- The scheduler when the number of free blocks is about to be set: the preemption queue has been
    sent to the workers. -/
def schedulerBeforeReport (e : BaseLLMEngine VAttentionBlockManager γ) :
    SchedulerState VAttentionBlockManager :=
  { e.scheduler with
    blockManager := (BlockSpaceManager.takePreemptionQueue e.scheduler.blockManager).2 }

/-- Every running sequence is an active request of the block manager. -/
def RunningActive (e : BaseLLMEngine VAttentionBlockManager γ) : Prop :=
  ∀ id ∈ e.scheduler.running, id ∈ e.scheduler.blockManager.activeRequests

omit [CacheEngine γ] in
/-- Freeing other sequences keeps a request active. -/
theorem foldl_free_active {objs : Heap} {id : SeqId} (l : List SeqId) (m : VAttentionBlockManager)
    (hnot : id ∉ l) (hid : id ∈ m.activeRequests) :
    id ∈ (l.foldl (fun m k => BlockSpaceManager.free m k (objs k)) m).activeRequests := by
  induction l generalizing m with
  | nil => exact hid
  | cons k l ih =>
    rw [List.mem_cons, not_or] at hnot
    refine ih _ hnot.2 ?_
    show id ∈ (m.free k (objs k)).activeRequests
    unfold VAttentionBlockManager.free
    split_ifs
    · exact (List.mem_erase_of_ne hnot.1).mpr hid
    · exact hid

/-- **Step lemma**: admission allocates, and what is freed does not run on. -/
theorem RunningActive.step (hinv : EngineInv e) (h : RunningActive e)
    (hschedule : e.scheduleStep cfg inp = .ok (e₁, out, queue))
    (hfinishes : Finishes cfg inp out e₁ e') : RunningActive e' := by
  have hscheduled : RunningActive e₁ := by
    obtain ⟨freeBlocks, -, -, hcall, -, -⟩ := BaseLLMEngine.scheduleStep_eq_ok hschedule
    rcases schedule_eq_ok hcall with ⟨-, hsame, -⟩ | ⟨σ, turn, hrun, -, hs, -⟩
    · unfold RunningActive
      rw [hsame]
      exact h
    · obtain ⟨hsteps, -⟩ := runPolicy_steps ⟨⟨rfl, rfl⟩, rfl⟩ hrun
      obtain ⟨calls, hcalls⟩ := SchedSteps.exists_calls hsteps
      have hledger := CallsUpTo.ledger (s := schedulerBeforeReport e) hinv.nodup h hcalls
      unfold RunningActive
      rw [hs]
      exact fun id hid => hledger.active id (.inr (.inl hid))
  rcases hfinishes with ⟨-, rfl⟩ | ⟨-, hview⟩
  · exact hscheduled
  · intro id hid
    rw [hview.scheduler] at hid ⊢
    obtain ⟨hrunning, hnot⟩ : id ∈ e₁.scheduler.running ∧
        (e'.replica.objs id).isFinished = false := by
      simpa [SchedulerState.onStepCompleted] using hid
    refine foldl_free_active _ _ ?_ (hscheduled id hrunning)
    simp [hnot]

theorem RunningActive.exec {event : Event} (hinv : EngineInv e) (h : RunningActive e)
    (hexec : e.exec cfg event = .ok e') : RunningActive e' := by
  cases event with
  | addRequest req =>
    unfold RunningActive
    rw [(addRequest_view hexec).scheduler]
    exact h
  | step inp =>
    obtain ⟨e₁, out, queue, hschedule, hfinishes⟩ := hinv.exec_step hexec
    exact h.step hinv hschedule hfinishes

/-- **When promises do not leak**: for every policy over the vAttention manager and every cache
    engine, in every state that a run reaches, the answers of `can_allocate` in the next iteration
    are determined by the free count that is set for it and the calls made in it, exactly if the
    policy clears the promises or none is left. -/
theorem promises_stay_iff (cfg : EngineConfig)
    (hreach : ReachesFrom cfg IsStart (fun _ _ => True) e) :
    (∀ now freeBlocks, AnswersFromIteration cfg.scheduler now e.replica.objs
      (schedulerBeforeReport e) freeBlocks) ↔
      cfg.scheduler.policy.clearsPromises = true ∨
        e.scheduler.blockManager.promisedBlocks = 0 := by
  obtain ⟨hinv, hactive⟩ := reaches_invariant_of_start RunningActive (fun _ _ => nofun)
    (fun _ _ _ hinv h _ hexec => h.exec hinv hexec) hreach
  exact answersFromIteration_iff (s := schedulerBeforeReport e) hinv.nodup hactive

/-! ### Two policies -/

/-- A configuration with blocks of two tokens. -/
def promiseConfig (policy : Policy) (hpolicy : ∀ n, policy = .vllm n → 8 ≤ n) : EngineConfig where
  scheduler := {
    policy
    maxNumSeqs := 4
    maxModelLen := 8
    numPipelineStages := 1
    vllm_limit := hpolicy }
  blockSize := 2
  eosTokenId := none
  detokenize _ _ _ _ := ⟨[], [], 0, 0⟩
  padInputs := true

/-- Two prompts of one block; the first one is admitted when one block is free. -/
def oneAdmitted : List Event :=
  [.addRequest ⟨0, [], [1, 2], 0, {}⟩, .addRequest ⟨1, [], [3, 4], 1, {}⟩, .step ⟨9, fun _ => 5⟩]

/-- An engine whose worker reports one free block in the first step. -/
def oneBlockEngine : BaseLLMEngine VAttentionBlockManager ReportingCacheEngine :=
  .start (.new 2 4) [⟨[1]⟩]

/-- vLLM answers from the iteration, whatever was promised in the last one. -/
theorem vllm_promises_stay :
    ∃ e, oneBlockEngine.run (promiseConfig (.vllm 8) (by simp)) oneAdmitted = .ok e ∧
      e.scheduler.blockManager.promisedBlocks = 1 ∧
      ∀ now freeBlocks, AnswersFromIteration (promiseConfig (.vllm 8) (by simp)).scheduler now
        e.replica.objs (schedulerBeforeReport e) freeBlocks := by
  have hstate : (oneBlockEngine.run (promiseConfig (.vllm 8) (by simp)) oneAdmitted).map
      (fun e => e.scheduler.blockManager.promisedBlocks) = .ok 1 := by rfl
  obtain ⟨e, hrun, hpromised⟩ := map_eq_ok.mp hstate
  refine ⟨e, hrun, hpromised, (promises_stay_iff _ ?_).mpr (.inl rfl)⟩
  exact Reaches.foldlM (fun _ _ _ => trivial) (.init ⟨_, _, rfl⟩) (checkGuards_true _ _ _) hrun

/-- Orca refuses the second prompt in the next iteration although one block is free again: the
    block promised to the first one is counted a second time. -/
theorem orca_promises_leak :
    ∃ e, oneBlockEngine.run (promiseConfig .orca (by simp)) oneAdmitted = .ok e ∧
      e.scheduler.waiting = [1] ∧
      (iterationStart (promiseConfig .orca (by simp)).scheduler e.replica.objs
        (schedulerBeforeReport e) 1).blockManager.canAllocate (e.replica.objs 1) = false ∧
      answerOf 2 0 1 [] (e.replica.objs 1) = true ∧
      ¬ AnswersFromIteration (promiseConfig .orca (by simp)).scheduler 9 e.replica.objs
        (schedulerBeforeReport e) 1 := by
  have hstate : (oneBlockEngine.run (promiseConfig .orca (by simp)) oneAdmitted).map
      (fun e => (e.scheduler.waiting,
        (iterationStart (promiseConfig .orca (by simp)).scheduler e.replica.objs
          (schedulerBeforeReport e) 1).blockManager.canAllocate (e.replica.objs 1),
        answerOf 2 0 1 [] (e.replica.objs 1), e.scheduler.blockManager.blockSize,
        e.scheduler.blockManager.watermarkBlocks)) = .ok ([1], false, true, 2, 0) := by rfl
  obtain ⟨e, hrun, hend⟩ := map_eq_ok.mp hstate
  simp only [Prod.mk.injEq] at hend
  obtain ⟨hwaiting, hactual, hanswer, hsize, hwatermark⟩ := hend
  refine ⟨e, hrun, hwaiting, hactual, hanswer, fun h => ?_⟩
  have hsame := h.answers _ [] .refl (e.replica.objs 1)
  have hstart : answerOf (schedulerBeforeReport e).blockManager.blockSize
      (schedulerBeforeReport e).blockManager.watermarkBlocks 1 [] (e.replica.objs 1) = true := by
    show answerOf e.scheduler.blockManager.blockSize e.scheduler.blockManager.watermarkBlocks 1 []
      (e.replica.objs 1) = true
    rw [hsize, hwatermark]
    exact hanswer
  rw [hactual, hstart] at hsame
  cases hsame

end VAttention.Engine
