import VAttention.Engine.Preemption
import VAttention.Scheduler.Readmission

/-!
# Victims and the batch of the same step

A worker releases the slots of evicted sequences one step late, so it would release the slot of a
sequence that is evicted and scheduled in one step while it is in use.  In every run, the vLLM
scheduler and Sarathi with a fixed chunk size never do both; with a dynamic chunk schedule Sarathi
does not as long as no decoding sequence has smaller chunks than there are other decodes.
-/

namespace VAttention.Engine

open VAttention.Core VAttention.Lib VAttention.Scheduler VAttention.Manager VAttention.Worker

variable {β γ : Type} [BlockSpaceManager β] [CacheEngine γ] {cfg : EngineConfig} {inp : StepInput}
  {e e₁ e' : BaseLLMEngine β γ} {out : SchedulerOutputs} {queue : List SeqId}

/-! ## Prompts and chunks -/

/-- Running prompts that are not processed yet have tokens left, and Sarathi with a fixed chunk
    size runs no more sequences than a chunk has tokens. -/
structure ChunkInv (cfg : EngineConfig) (e : BaseLLMEngine β γ) : Prop where
  prompts : ∀ id ∈ e.scheduler.running, (e.replica.objs id).promptProcessingFinished = false →
    0 < remainingPrompt (e.replica.objs id)
  length : ∀ chunkSize, cfg.scheduler.policy = .sarathi (.fixed chunkSize) →
    e.scheduler.running.length ≤ chunkSize.toNat
  /-- With a negative chunk size no sequence has ever run. -/
  negative : ∀ chunkSize < 0, cfg.scheduler.policy = .sarathi (.fixed chunkSize) →
    ∀ id ∈ e.scheduler.waiting, (e.replica.objs id).promptProcessingFinished = false

omit [BlockSpaceManager β] [CacheEngine γ] in
/-- Of a sequence the scheduler has, no more tokens are processed than the prompt holds, and all
    of them once the prompt is processed. -/
theorem EngineInv.remainingPrompt {id : SeqId} (h : EngineInv e)
    (hid : id ∈ e.scheduler.waiting ++ e.scheduler.running) :
    0 ≤ Scheduler.remainingPrompt (e.replica.objs id) ∧
      ((e.replica.objs id).promptProcessingFinished = true →
        Scheduler.remainingPrompt (e.replica.objs id) = 0) := by
  have hregular := (h.live id hid).regular
  have hle := hregular.processed_le
  simp only [Scheduler.remainingPrompt, Sequence.getPromptLen]
  refine ⟨by omega, fun hfinished => ?_⟩
  rw [hregular.processed_eq hfinished]
  omega

/-- A prompt that a chunk does not complete has tokens left. -/
theorem remainingPrompt_of_advance {μ : Type} {hooks : ManagerHooks μ} (htext : TextOnly hooks)
    {outputToken : TokenId} {chunkLen : Int} {s s' : Sequence}
    (h : advance hooks outputToken chunkLen s = .ok s')
    (hprompt : s'.promptProcessingFinished = false) : 0 < remainingPrompt s' := by
  rcases advance_eq_ok h with ⟨-, -, hle, rfl⟩ | ⟨hfinished, hstop⟩
  · simp only [beq_eq_false_iff_ne] at hprompt
    simp only [remainingPrompt, Sequence.getPromptLen]
    omega
  · -- a processed prompt stays processed
    obtain ⟨-, -, text, status, rfl⟩ := checkStop_spec (decoded_isFinished htext) hstop
    have hsame := congrArg Sequence.promptProcessingFinished
      (core_decoded htext (s := s) (t := outputToken))
    have hcontra : s.promptProcessingFinished = false := hsame.symm.trans hprompt
    rw [hfinished] at hcontra
    cases hcontra

/-- A step with a negative chunk size fails if it schedules anybody. -/
theorem ChunkInv.running_of_negative (hinv : EngineInv e) (h : ChunkInv cfg e) {chunkSize : Int}
    (hneg : chunkSize < 0) (hpolicy : cfg.scheduler.policy = .sarathi (.fixed chunkSize))
    (hschedule : e.scheduleStep cfg inp = .ok (e₁, out, queue))
    (hfinishes : Finishes cfg inp out e₁ e') : e'.scheduler.running = [] := by
  have hidle : e.scheduler.running = [] := by
    have hlen := h.length chunkSize hpolicy
    exact List.eq_nil_of_length_eq_zero (by omega)
  rw [List.eq_nil_iff_forall_not_mem]
  intro id hid
  obtain ⟨-, ⟨hold, -⟩ | ⟨m, hm, rfl, hadvance, -⟩⟩ := hinv.running_cases hschedule hfinishes hid
  · rw [hidle] at hold
    cases hold
  have hspec := BaseLLMEngine.scheduleStep_spec hinv.nodup hschedule
  -- its chunk is negative
  have hchunk : m.promptChunkLen ≤ chunkSize := by
    rcases schedule_eq_ok (scheduleStep_schedule hschedule) with
      ⟨-, -, rfl⟩ | ⟨σ, _, hrun, -, -, rfl⟩
    · cases hm
    · exact sarathiSchedule_chunks_of_idle (s := schedulerAtStep e) hidle
        (runPolicy_sarathi hpolicy hrun) m hm
  -- and its prompt is not processed
  have hopen : (entering out m.seqId (e.replica.objs m.seqId)).promptProcessingFinished =
      false := by
    have hmem := hspec.perm.subset (List.mem_append_right _
      (List.mem_append_left _ (hspec.batch_running _ (List.mem_map_of_mem hm))))
    rw [hidle, List.append_nil] at hmem
    unfold entering
    split_ifs
    · rfl
    · exact h.negative chunkSize hneg hpolicy _ hmem
  rcases advance_eq_ok hadvance with ⟨-, hpos, -⟩ | ⟨hfinished, -⟩
  · omega
  · rw [hopen] at hfinished
    cases hfinished

omit [BlockSpaceManager β] [CacheEngine γ] in
theorem ChunkInv.addRequest {req : Request} (hinv : EngineInv e) (h : ChunkInv cfg e)
    (hadd : AddView cfg req e e') : ChunkInv cfg e' := by
  have hrunning : e'.scheduler.running = e.scheduler.running := by
    rw [hadd.scheduler]
    rfl
  have hwaiting : e'.scheduler.waiting = e.scheduler.waiting ++ [req.seqId] := by
    rw [hadd.scheduler]
    rfl
  refine ⟨fun id hid => ?_, fun chunkSize hpolicy => ?_, fun chunkSize hneg hpolicy id hid => ?_⟩
  · rw [hrunning] at hid
    rw [hadd.of_ne (hinv.ne_of_mem hadd (List.mem_append_right _ hid))]
    exact h.prompts id hid
  · rw [hrunning]
    exact h.length chunkSize hpolicy
  · rw [hwaiting] at hid
    rcases List.mem_append.mp hid with hid | hid
    · rw [hadd.of_ne (hinv.ne_of_mem hadd (List.mem_append_left _ hid))]
      exact h.negative chunkSize hneg hpolicy id hid
    · obtain rfl := List.mem_singleton.mp hid
      rw [hadd.objs_self]
      rfl

theorem ChunkInv.step (hinv : EngineInv e) (h : ChunkInv cfg e)
    (hschedule : e.scheduleStep cfg inp = .ok (e₁, out, queue))
    (hfinishes : Finishes cfg inp out e₁ e') : ChunkInv cfg e' := by
  refine ⟨fun id hid => ?_, fun chunkSize hpolicy => ?_, fun chunkSize hneg hpolicy id hid => ?_⟩
  · obtain ⟨-, ⟨hold, hsame⟩ | ⟨m, -, rfl, hadvance, -⟩⟩ :=
      hinv.running_cases hschedule hfinishes hid
    · rw [hsame]
      exact h.prompts id hold
    · exact remainingPrompt_of_advance (engineHooks_textOnly _) hadvance
  · by_cases hneg : chunkSize < 0
    · rw [h.running_of_negative hinv hneg hpolicy hschedule hfinishes]
      exact Nat.zero_le _
    have hold := h.length chunkSize hpolicy
    have hlen : (e₁.scheduler.running.length : Int) ≤ chunkSize := by
      have hpaused : ∀ id ∈ e.scheduler.running, (e.replica.objs id).isPaused = true :=
        fun id hid => by simp [Sequence.isPaused, hinv.running id hid]
      exact schedule_length_le_chunk (s := schedulerAtStep e) hpolicy hpaused h.prompts
        (fun id hid => (hinv.remainingPrompt hid).1)
        (show (e.scheduler.running.length : Int) ≤ chunkSize by omega)
        (scheduleStep_schedule hschedule)
    -- finishing sequences only shortens the list
    rcases hfinishes with ⟨-, rfl⟩ | ⟨-, hview⟩
    · omega
    · rw [hview.scheduler]
      have hle : (e₁.scheduler.onStepCompleted e'.replica.objs).running.length ≤
          e₁.scheduler.running.length := List.length_filter_le _ _
      omega
  · -- nobody was running, so nobody was evicted
    obtain ⟨-, ⟨hold, hsame⟩ | ⟨hold, -⟩⟩ := hinv.waiting_cases hschedule hfinishes hid
    · rw [hsame]
      exact h.negative chunkSize hneg hpolicy id hold
    · have hlen := h.length chunkSize hpolicy
      have hpos := List.length_pos_of_mem hold
      omega

theorem ChunkInv.exec {event : Event} (hinv : EngineInv e) (h : ChunkInv cfg e)
    (hexec : e.exec cfg event = .ok e') : ChunkInv cfg e' := by
  cases event with
  | addRequest req => exact h.addRequest hinv (addRequest_view hexec)
  | step inp =>
    obtain ⟨e₁, out, queue, hschedule, hfinishes⟩ := hinv.exec_step hexec
    exact h.step hinv hschedule hfinishes

/-- **Run lemma**: in every state a run reaches. -/
theorem chunkInv_of_reaches (hreach : ReachesFrom cfg IsStart (fun _ _ => True) e) :
    EngineInv e ∧ ChunkInv cfg e :=
  reaches_invariant_of_start (ChunkInv cfg)
    (fun _ _ => ⟨nofun, fun _ _ => Nat.zero_le _, fun _ _ _ => nofun⟩)
    (fun _ _ _ hinv h _ hexec => h.exec hinv hexec) hreach

/-! ## The batch of a step -/

/-- With a dynamic chunk schedule, the chunk size of every decoding sequence is at least the
    number of the other ones. -/
def dynamicChunksCover (cfg : EngineConfig) (e : BaseLLMEngine VAttentionBlockManager γ) : Bool :=
  match cfg.scheduler.policy with
  | .sarathi (.dynamic chunkSizes tokensPerStage) =>
    chunksCoverDecodes (.dynamic chunkSizes tokensPerStage) e.replica.objs e.scheduler.running
  | _ => true

omit [CacheEngine γ] in
theorem ChunkInv.victimsStayOut {e : BaseLLMEngine VAttentionBlockManager γ} (h : ChunkInv cfg e)
    (hcover : dynamicChunksCover cfg e = true) :
    victimsStayOut cfg.scheduler e.replica.objs e.scheduler.running = true := by
  unfold dynamicChunksCover at hcover
  unfold Scheduler.victimsStayOut
  split
  · rename_i chunks hpolicy
    cases chunks with
    | fixed chunkSize => exact chunksCoverDecodes_fixed (h.length chunkSize hpolicy)
    | dynamic chunkSizes tokensPerStage =>
      rw [hpolicy] at hcover
      exact hcover
  · rfl

/-- **A victim waits after the step that evicts it**, if a dynamic chunk schedule covers the
    decodes. -/
theorem ChunkInv.parked {e e₁ : BaseLLMEngine VAttentionBlockManager γ} (hinv : EngineInv e)
    (h : ChunkInv cfg e) (hcover : dynamicChunksCover cfg e = true)
    (hschedule : e.scheduleStep cfg inp = .ok (e₁, out, queue)) :
    ∀ id ∈ out.preemptedSeqIds, id ∈ e₁.scheduler.waiting := by
  have hprocessed : ∀ id ∈ e.scheduler.running,
      (e.replica.objs id).promptProcessingFinished = true →
        remainingPrompt (e.replica.objs id) = 0 :=
    fun id hid => (hinv.remainingPrompt (List.mem_append_right _ hid)).2
  exact schedule_parked (s := schedulerAtStep e) hinv.nodup hprocessed (h.victimsStayOut hcover)
    (scheduleStep_schedule hschedule)

/-- **A victim is not rescheduled in the step that evicts it**: for every policy over the
    vAttention manager, whatever numbers of free blocks the workers report, in every state that a
    run reaches, no sequence is both evicted and scheduled by the next step, if a dynamic chunk
    schedule covers the decodes. -/
theorem victims_not_rescheduled (cfg : EngineConfig)
    {e e₁ : BaseLLMEngine VAttentionBlockManager γ}
    (hreach : ReachesFrom cfg IsStart (fun _ _ => True) e)
    (hcover : dynamicChunksCover cfg e = true)
    (hschedule : e.scheduleStep cfg inp = .ok (e₁, out, queue)) :
    ∀ id ∈ out.preemptedSeqIds, id ∉ out.batchIds := by
  obtain ⟨hinv, hchunk⟩ := chunkInv_of_reaches hreach
  have hspec := BaseLLMEngine.scheduleStep_spec hinv.nodup hschedule
  intro id hid
  exact hspec.notMem_batch hinv.nodup (hchunk.parked hinv hcover hschedule id hid)

/-! ### Two runs -/

/-- A cache engine reduced to the numbers of free blocks that it reports, one for each step. -/
structure ReportingCacheEngine where
  reports : List Nat

instance : CacheEngine ReportingCacheEngine where
  numFreeBlocks c := c.reports.headD 0
  preemptRequests _ c := .ok c
  step _ c := .ok ⟨c.reports.tail⟩
  onStepCompletion _ c := .ok c

/-- Sarathi with chunks of 128 tokens for the first 64 tokens of a prompt and of 32 for the next,
    over blocks of 64 tokens. -/
def stagedConfig : EngineConfig where
  scheduler := {
    policy := .sarathi (.dynamic [128, 32] 64)
    maxNumSeqs := 64
    maxModelLen := 128
    numPipelineStages := 1
    vllm_limit := by
      rintro n ⟨⟩ }
  blockSize := 64
  eosTokenId := none
  detokenize _ _ _ _ := ⟨[], [], 0, 0⟩
  padInputs := true

/-- An engine whose worker reports 64 free blocks in each of the given number of steps, and then
    none. -/
def stagedEngine (numSteps : Nat) : BaseLLMEngine VAttentionBlockManager ReportingCacheEngine :=
  .start (.new 64 64) [⟨List.replicate numSteps 64⟩]

/-- Prompts of one token, and one more prompt of exactly one block that arrives last; each step
    admits one of them. -/
def crowdedRun (others : Nat) : List Event :=
  (List.range others).map (fun id => .addRequest ⟨id, [], [1], id, { maxTokens := 64 }⟩) ++
    .addRequest ⟨others, [], List.replicate 64 1, others, { maxTokens := 64 }⟩ ::
    List.replicate (others + 1) (.step ⟨99, fun _ => 5⟩)

/-- With two sequences, the last one evicts itself and stays out. -/
theorem crowdedRun_victim_stays_out :
    ∃ e e₁ out queue, (stagedEngine 2).run stagedConfig (crowdedRun 1) = .ok e ∧
      e.scheduleStep stagedConfig ⟨99, fun _ => 5⟩ = .ok (e₁, out, queue) ∧
      out.preemptedSeqIds = [1] ∧ 1 ∉ out.batchIds := by
  have hstate : ((stagedEngine 2).run stagedConfig (crowdedRun 1)).bind (fun e =>
      (e.scheduleStep stagedConfig ⟨99, fun _ => 5⟩).map fun (_, out, _) =>
        (out.preemptedSeqIds, dynamicChunksCover stagedConfig e)) = .ok ([1], true) := by
    decide +kernel
  obtain ⟨e, hrun, hrest⟩ := seq_eq_ok.mp hstate
  obtain ⟨⟨e₁, out, queue⟩, hschedule, hend⟩ := map_eq_ok.mp hrest
  obtain ⟨hpre, hcover⟩ := Prod.mk.inj hend
  refine ⟨e, e₁, out, queue, hrun, hschedule, hpre, ?_⟩
  refine victims_not_rescheduled stagedConfig ?_ hcover hschedule 1 (by simp [hpre])
  exact Reaches.foldlM (fun _ _ _ => trivial) (.init ⟨_, _, rfl⟩) (checkGuards_true _ _ _) hrun

/-- With 34 sequences, 33 decodes are in the batch when the last one evicts itself for want of a
    block.  Its prompt is processed and in the second stage, so its next chunk is
    `min(0, 32 - 33)` tokens; that is not zero, and its blocks are free: it is admitted again. -/
theorem crowdedRun_victim_rescheduled :
    ∃ e e₁ out queue, (stagedEngine 34).run stagedConfig (crowdedRun 33) = .ok e ∧
      e.scheduleStep stagedConfig ⟨99, fun _ => 5⟩ = .ok (e₁, out, queue) ∧
      33 ∈ out.preemptedSeqIds ∧ 33 ∈ out.batchIds := by
  have hstate : ((stagedEngine 34).run stagedConfig (crowdedRun 33)).bind (fun e =>
      (e.scheduleStep stagedConfig ⟨99, fun _ => 5⟩).map fun (_, out, _) =>
        (out.preemptedSeqIds, out.batchIds.getLast?)) = .ok ([33], some 33) := by
    decide +kernel
  obtain ⟨e, hrun, hrest⟩ := seq_eq_ok.mp hstate
  obtain ⟨⟨e₁, out, queue⟩, hschedule, hend⟩ := map_eq_ok.mp hrest
  obtain ⟨hpre, hbatch⟩ := Prod.mk.inj hend
  refine ⟨e, e₁, out, queue, hrun, hschedule, by simp [hpre], ?_⟩
  exact List.mem_of_getLast? hbatch

end VAttention.Engine
