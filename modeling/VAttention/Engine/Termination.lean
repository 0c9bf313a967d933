import VAttention.Engine.Preemption

/-!
# Engine and workers agree on termination

Every worker runs the stop check on its own copy of a sequence, without the text that only
the engine has.  The copies finish together unless a stop string ends a sequence, and a
sequence that the scheduler drops for its length is finished on the engine only.
-/

namespace VAttention.Engine

open VAttention.Core VAttention.Lib VAttention.Scheduler VAttention.Manager VAttention.Worker

variable {β γ : Type} {cfg : EngineConfig} {inp : StepInput} {e e₁ e' : BaseLLMEngine β γ}
  {out : SchedulerOutputs} {queue : List SeqId}

/-- Two views of a sequence agree on termination: both objects are finished or neither is, and
    both `seq_map`s have it or neither has. -/
def SameEnd (v v' : Sequence × Prop) : Prop := v.1.isFinished = v'.1.isFinished ∧ (v.2 ↔ v'.2)

/-- Every worker's copy of a sequence agrees with the engine's copy. -/
def TerminationAgrees (e : BaseLLMEngine β γ) : Prop :=
  ∀ w ∈ e.workers, ∀ id, SameEnd (w.replica.view id) (e.replica.view id)

/-- A stop string ends the sequence with token `t`, and nothing else ends it on a worker. -/
def hiddenStop (detokenize : Detokenizer) (t : TokenId) (s : Sequence) : Bool :=
  let d := decoded (engineHooks detokenize) t s
  stopsByText d && !stopsByText (core d) && !stopsByCount d

/-- No token of the step completes a stop string that a worker does not see. -/
def noHiddenStop (cfg : EngineConfig) (e : BaseLLMEngine β γ) (inp : StepInput) : Bool :=
  (e.scheduler.waiting ++ e.scheduler.running).all fun id =>
    !(e.replica.objs id).promptProcessingFinished ||
    !hiddenStop cfg.detokenize (inp.sampled id) (e.replica.objs id)

/-- Moreover, no sequence that has arrived is too long for the model. -/
def stopsVisibly (cfg : EngineConfig) (e : BaseLLMEngine β γ) : Event → Bool
  | .addRequest _ => true
  | .step inp =>
    (e.scheduler.waiting.all fun id =>
      inp.now < (e.replica.objs id).arrivalTime ||
      (e.replica.objs id).getLen ≤ cfg.scheduler.maxModelLen) &&
    noHiddenStop cfg e inp

theorem stopHarmless_of_hiddenStop {detokenize : Detokenizer} {t : TokenId} {s : Sequence}
    (h : hiddenStop detokenize t s = false) : StopHarmless (engineHooks detokenize) t s := by
  intro htext
  by_contra hhidden
  rw [not_or, Bool.not_eq_true, Bool.not_eq_true] at hhidden
  simp [hiddenStop, htext, hhidden.1, hhidden.2] at h

/-! ## One step -/

variable [BlockSpaceManager β] [CacheEngine γ]

/-- The length check drops no sequence. -/
theorem EngineInv.ignored_eq_nil (h : EngineInv e)
    (hguard : stopsVisibly cfg e (.step inp) = true)
    (hschedule : e.scheduleStep cfg inp = .ok (e₁, out, queue)) : out.ignoredSeqIds = [] := by
  have hspec := BaseLLMEngine.scheduleStep_spec h.nodup hschedule
  rw [List.eq_nil_iff_forall_not_mem]
  intro id hid
  obtain ⟨hstatus, harrived, hlong, -⟩ := hspec.ignored id hid
  -- an ignored sequence was waiting, had arrived and was too long
  have hmem : id ∈ e.scheduler.waiting ++ e.scheduler.running := by
    rw [← hspec.perm.mem_iff]
    exact List.mem_append_right _ (List.mem_append_right _ hid)
  rcases List.mem_append.mp hmem with hwaiting | hrunning
  · have hfits := List.all_eq_true.mp (Bool.and_eq_true_iff.mp hguard).1 id hwaiting
    simp only [Bool.or_eq_true, decide_eq_true_eq] at hfits
    rcases hfits with hlate | hshort
    · exact absurd harrived (not_le.mpr hlate)
    · exact absurd hlong (not_lt.mpr hshort)
  · rw [h.running id hrunning] at hstatus
    cases hstatus

/-- The two copies of a batch entry finish together. -/
theorem EngineInv.batch_agrees (h : EngineInv e) (hguard : noHiddenStop cfg e inp = true)
    (hschedule : e.scheduleStep cfg inp = .ok (e₁, out, queue))
    (hview : ExecuteView cfg inp out e₁ e') {w w' : BaseWorker β γ} (hw : w ∈ e₁.workers)
    (hstep : StepView (workerHooks β) out inp.sampled w.replica.view w'.replica.view)
    {m : SequenceScheduleMetadata} (hm : m ∈ out.scheduledSeqMetadataList) :
    SameEnd (w'.replica.view m.seqId) (e'.replica.view m.seqId) := by
  have hspec := BaseLLMEngine.scheduleStep_spec h.nodup hschedule
  have hmem := List.mem_append_right e₁.scheduler.waiting
    (hspec.batch_running _ (List.mem_map_of_mem hm))
  obtain ⟨hlive, hobjs⟩ := h.live_of_schedule hschedule hmem
  obtain ⟨hold, -, -⟩ := hspec.objs_of_mem h.nodup hmem
  obtain ⟨-, s', hadvance, hengine⟩ := hview.engine.batch m hm
  obtain ⟨-, w'', hadvance', hworker⟩ := hstep.batch m hm
  rw [hlive.workers w hw, core_entering] at hadvance'
  -- a processed prompt has not been reset, so the guard speaks about it
  have hharmless : (entering out m.seqId (e₁.replica.objs m.seqId)).promptProcessingFinished =
      true → StopHarmless (engineHooks cfg.detokenize) (inp.sampled m.seqId)
        (entering out m.seqId (e₁.replica.objs m.seqId)) := by
    rw [hobjs]
    intro hfinished
    by_cases hpre : m.seqId ∈ out.preemptedSeqIds
    · simp [entering, hpre, recomputed] at hfinished
    · simp only [entering, hpre, if_false] at hfinished ⊢
      have hvisible := List.all_eq_true.mp hguard _ hold
      rw [hfinished, Bool.not_true, Bool.false_or, Bool.not_eq_true'] at hvisible
      exact stopHarmless_of_hiddenStop hvisible
  have hsame : w''.isFinished = s'.isFinished :=
    (advance_core_isFinished_iff β (engineHooks_textOnly _) hadvance hadvance').mpr hharmless
  rw [hengine, hworker, SameEnd, hsame]
  exact ⟨rfl, Iff.rfl⟩

/-- Executing a batch keeps the agreement. -/
theorem TerminationAgrees.execute (hinv : EngineInv e)
    (hguard : stopsVisibly cfg e (.step inp) = true)
    (hschedule : e.scheduleStep cfg inp = .ok (e₁, out, queue)) (h : TerminationAgrees e₁)
    (hview : ExecuteView cfg inp out e₁ e') : TerminationAgrees e' := by
  have hignored := hinv.ignored_eq_nil hguard hschedule
  intro w' hw' id
  obtain ⟨w, hw, hstep⟩ := hview.workers w' hw'
  by_cases hbatch : id ∈ out.batchIds
  · obtain ⟨m, hm, rfl⟩ := List.mem_map.mp hbatch
    exact hinv.batch_agrees (Bool.and_eq_true_iff.mp hguard).2 hschedule hview hw hstep hm
  by_cases hpre : id ∈ out.preemptedSeqIds
  · -- both copies are reset, so both are waiting
    rw [(hview.engine.preempted id hpre hbatch).2, (hstep.preempted id hpre hbatch).2]
    exact ⟨rfl, Iff.rfl⟩
  · rw [hview.engine.frame id (by simp [hignored]) hpre hbatch,
      hstep.frame id (by simp [hignored]) hpre hbatch]
    exact h w hw id

theorem TerminationAgrees.exec {event : Event} (hinv : EngineInv e) (h : TerminationAgrees e)
    (hguard : stopsVisibly cfg e event = true) (hexec : e.exec cfg event = .ok e') :
    TerminationAgrees e' := by
  cases event with
  | addRequest req =>
    have hadd := addRequest_view hexec
    intro w' hw' id
    obtain ⟨w, hw, -, -, hworker⟩ := hadd.workers w' hw'
    rw [hworker, hadd.engine]
    split_ifs
    · exact ⟨rfl, Iff.rfl⟩
    · exact h w hw id
  | step inp =>
    obtain ⟨e₁, out, queue, hschedule, hfinishes⟩ := hinv.exec_step hexec
    -- nothing is ignored, so scheduling changes no object
    have h₁ : TerminationAgrees e₁ := by
      have hspec := BaseLLMEngine.scheduleStep_spec hinv.nodup hschedule
      have hignored := hinv.ignored_eq_nil hguard hschedule
      have hworkers := BaseLLMEngine.scheduleStep_workers hschedule
      intro w hw id
      rw [BaseLLMEngine.scheduleStep_view hschedule, hspec.objs_eq id (by simp [hignored])]
      exact h w (hworkers ▸ hw) id
    rcases hfinishes with ⟨-, rfl⟩ | ⟨-, hview⟩
    · exact h₁
    · exact h₁.execute hinv hguard hschedule hview

omit [BlockSpaceManager β] [CacheEngine γ] in
theorem TerminationAgrees.start (blockManager : β) (cacheEngines : List γ) :
    TerminationAgrees (BaseLLMEngine.start blockManager cacheEngines) := by
  intro w hw id
  obtain ⟨c, -, rfl⟩ := List.mem_map.mp hw
  exact ⟨rfl, Iff.rfl⟩

/-- **Engine and workers agree on termination**: for every policy, block manager and cache
    engine, in every run in which no over-long sequence arrives and no token completes a stop
    string hidden from the workers, all copies of a sequence finish in the same step. -/
theorem termination_agrees_of_stopsVisibly (cfg : EngineConfig) {e : BaseLLMEngine β γ}
    (hreach : ReachesFrom cfg IsStart (fun e event => stopsVisibly cfg e event = true) e) :
    TerminationAgrees e :=
  (reaches_invariant_of_start TerminationAgrees TerminationAgrees.start
    (fun _ _ _ hinv hagrees hguard hexec => hagrees.exec hinv hguard hexec) hreach).2

/-! ### Two runs -/

/-- The vLLM policy with a tokenizer that decodes every token to the letter a. -/
def textConfig : EngineConfig :=
  { vllmConfig with detokenize := fun _ _ _ _ => ⟨[], ['a'], 0, 0⟩ }

/-- A prompt of one token, with a stop string and a limit of two tokens, and two decodes. -/
def stopRun (stop : Text) : List Event :=
  [.addRequest ⟨0, [], [1], 0, { stop := [stop], maxTokens := 2 }⟩, simpleStep, simpleStep]

/-- The stop string is not in the text: after one more step both copies are length capped. -/
theorem stopRun_agrees :
    ∃ e, (pagedEngine 2).run textConfig (stopRun ['b'] ++ [simpleStep]) = .ok e ∧
      (e.replica.objs 0).isFinished = true ∧ TerminationAgrees e := by
  have hfinished : ((pagedEngine 2).run textConfig (stopRun ['b'] ++ [simpleStep])).map
      (fun e => (e.replica.objs 0).isFinished) = .ok true := by rfl
  obtain ⟨e, hrun, hend⟩ := map_eq_ok.mp hfinished
  refine ⟨e, hrun, hend, termination_agrees_of_stopsVisibly textConfig ?_⟩
  exact Reaches.foldlM (fun _ _ => id) (.init ⟨_, _, rfl⟩) (by decide +kernel) hrun

/-- The engine stops the sequence on its first token; the worker's copy goes on. -/
theorem stopRun_disagrees :
    ∃ e, (pagedEngine 2).run textConfig (stopRun ['a']) = .ok e ∧ ¬ TerminationAgrees e := by
  have hstate : ((pagedEngine 2).run textConfig (stopRun ['a'])).map (fun e =>
      ((e.replica.objs 0).isFinished, e.workers.map fun w => (w.replica.objs 0).isFinished)) =
      .ok (true, [false]) := by rfl
  obtain ⟨e, hrun, hstate⟩ := map_eq_ok.mp hstate
  obtain ⟨hengine, hworkers⟩ := Prod.mk.inj hstate
  refine ⟨e, hrun, fun hagrees => ?_⟩
  obtain ⟨w, hw, hgoes⟩ := List.mem_map.mp (hworkers ▸ List.mem_singleton_self false)
  have hsame : (w.replica.objs 0).isFinished = (e.replica.objs 0).isFinished :=
    (hagrees w hw 0).1
  rw [hgoes, hengine] at hsame
  cases hsame

end VAttention.Engine
