import VAttention.Engine.Preemption
import VAttention.Worker.Context

/-!
# The context bound

The length of a sequence is compared with `max_model_len` only while it waits.  From then on
`max_tokens` is all that stops it, so the contexts stay within `max_model_len` if every
sequence that is admitted leaves room for the tokens it may still generate.
-/

namespace VAttention.Engine

open VAttention.Core VAttention.Lib VAttention.Scheduler VAttention.Manager VAttention.Worker
open VAttention.Executor VAttnCacheEngine

variable {β : Type} [BlockSpaceManager β] {cfg : EngineConfig} {inp : StepInput}
  {e e₁ e' : BaseLLMEngine β VAttnCacheEngine} {out : SchedulerOutputs} {queue : List SeqId}

/-- An engine before its first call, with vAttention cache engines. -/
def IsVAttnStart (e : BaseLLMEngine β VAttnCacheEngine) : Prop :=
  ∃ blockManager cacheEngines, (∀ c ∈ cacheEngines, IsNew c) ∧
    e = .start blockManager cacheEngines

omit [BlockSpaceManager β] in
theorem IsVAttnStart.isStart (h : IsVAttnStart e) : IsStart e := by
  obtain ⟨blockManager, cacheEngines, -, rfl⟩ := h
  exact ⟨blockManager, cacheEngines, rfl⟩

/-- The cache engine is given the preemption queue; an empty one changes nothing anyway. -/
theorem beginStep_preemptRequests {w w₁ : BaseWorker β VAttnCacheEngine}
    (h : w.beginStep out queue = .ok w₁) :
    w.cacheEngine.preemptRequests queue = .ok w₁.cacheEngine := by
  obtain ⟨-, hpreempt⟩ := beginStep_eq_ok h
  unfold BaseWorker.preemptRequests at hpreempt
  split_ifs at hpreempt with hempty
  · rw [List.isEmpty_iff.mp hempty]
    exact hpreempt
  · exact hpreempt

/-- The contexts that a step records, the positions it uses and all the lengths it passes to
    the allocator are at most `max_model_len`. -/
def ContextsBounded (cfg : EngineConfig) (inp : StepInput)
    (e : BaseLLMEngine β VAttnCacheEngine) : Prop :=
  ∀ e₁ out queue, e.scheduleStep cfg inp = .ok (e₁, out, queue) →
    ∀ w ∈ e₁.workers, ∀ w₁, w.beginStep out queue = .ok w₁ →
      (∀ m ∈ w₁.replica.metadataList out, contextLen m ≤ cfg.scheduler.maxModelLen ∧
        ∀ rows, inputRows m = .ok rows → ∀ row ∈ rows, row.2 + 1 ≤ cfg.scheduler.maxModelLen) ∧
      ∀ c, w₁.cacheEngine.recordBatch (w₁.replica.metadataList out) = .ok c →
        c.LensBounded cfg.scheduler.maxModelLen

/-- Every waiting sequence is too long to be admitted, or has room for `max_tokens` tokens; the
    last of them is never fed back to the model. -/
def leavesRoom (cfg : EngineConfig) (e : BaseLLMEngine β VAttnCacheEngine) : Event → Bool
  | .addRequest _ => true
  | .step _ => e.scheduler.waiting.all fun id =>
      cfg.scheduler.maxModelLen < (e.replica.objs id).getLen ||
      (e.replica.objs id).getLen + (e.replica.objs id).samplingParams.maxTokens ≤
        cfg.scheduler.maxModelLen + 1

/-- The running sequences have room for the tokens they may generate. -/
structure RoomInv (cfg : EngineConfig) (e : BaseLLMEngine β VAttnCacheEngine) : Prop where
  running : ∀ id ∈ e.scheduler.running,
    (e.replica.objs id).getPromptLen + (e.replica.objs id).samplingParams.maxTokens ≤
      cfg.scheduler.maxModelLen + 1
  workers : ∀ w ∈ e.workers, w.cacheEngine.LensBounded cfg.scheduler.maxModelLen

/-! ## The entries of a batch -/

theorem getLen_entering (out : SchedulerOutputs) (id : SeqId) (s : Sequence) :
    (entering out id s).getLen = s.getLen := by
  unfold entering
  split_ifs
  · simp [recomputed, Sequence.getLen, Nat.add_comm]
  · rfl

omit [BlockSpaceManager β] in
/-- A running sequence never grows beyond the model length. -/
theorem RoomInv.getLen_le (h : RoomInv cfg e) (hinv : EngineInv e) {id : SeqId}
    (hid : id ∈ e.scheduler.running) :
    (e.replica.objs id).getLen ≤ cfg.scheduler.maxModelLen := by
  have hroom := h.running id hid
  have hlt := (hinv.live id (List.mem_append_right _ hid)).regular.output_lt
  simp only [Sequence.getPromptLen] at hroom
  simp only [Sequence.getLen]
  omega

/-- A batch entry is known to the scheduler, and fits the model. -/
theorem RoomInv.batch_getLen_le (h : RoomInv cfg e) (hinv : EngineInv e)
    (hschedule : e.scheduleStep cfg inp = .ok (e₁, out, queue)) {m : SequenceScheduleMetadata}
    (hm : m ∈ out.scheduledSeqMetadataList) :
    (e.replica.objs m.seqId).getLen ≤ cfg.scheduler.maxModelLen := by
  have hspec := BaseLLMEngine.scheduleStep_spec hinv.nodup hschedule
  rcases hspec.admitted m hm with ⟨hrunning, -⟩ | hfits
  · exact h.getLen_le hinv hrunning
  · exact hfits

/-- The metadata a worker passes to its cache engine. -/
theorem RoomInv.metadata (h : RoomInv cfg e) (hinv : EngineInv e)
    (hschedule : e.scheduleStep cfg inp = .ok (e₁, out, queue))
    {w w₁ : BaseWorker β VAttnCacheEngine} (hw : w ∈ e₁.workers)
    (hbegin : w.beginStep out queue = .ok w₁) :
    ∀ entry ∈ w₁.replica.metadataList out,
      Regular entry.seq ∧ entry.seq.getLen ≤ cfg.scheduler.maxModelLen := by
  intro entry hentry
  obtain ⟨m, hm, rfl⟩ := List.mem_map.mp hentry
  obtain ⟨hregular, -, hobjs⟩ := hinv.beginStep_objs hschedule hw hbegin hm
  dsimp only
  rw [hobjs]
  refine ⟨regular_core.mpr (hregular.entering out m.seqId), ?_⟩
  have hlen : (core (entering out m.seqId (e.replica.objs m.seqId))).getLen =
      (e.replica.objs m.seqId).getLen := getLen_entering out m.seqId _
  rw [hlen]
  exact h.batch_getLen_le hinv hschedule hm

theorem RoomInv.cacheEngine_bounded (h : RoomInv cfg e)
    (hschedule : e.scheduleStep cfg inp = .ok (e₁, out, queue))
    {w w₁ : BaseWorker β VAttnCacheEngine} (hw : w ∈ e₁.workers)
    (hbegin : w.beginStep out queue = .ok w₁) :
    w₁.cacheEngine.LensBounded cfg.scheduler.maxModelLen := by
  have hworkers := BaseLLMEngine.scheduleStep_workers hschedule
  exact preemptRequests_bounded (h.workers w (hworkers ▸ hw)) (beginStep_preemptRequests hbegin)

theorem RoomInv.contextsBounded (h : RoomInv cfg e) (hinv : EngineInv e) :
    ContextsBounded cfg inp e := by
  intro e₁ out queue hschedule w hw w₁ hbegin
  have hmetadata := h.metadata hinv hschedule hw hbegin
  have hcontext : ∀ entry ∈ w₁.replica.metadataList out,
      contextLen entry ≤ cfg.scheduler.maxModelLen := fun entry hentry =>
    (contextLen_le_getLen (hmetadata entry hentry).1 _).trans (hmetadata entry hentry).2
  refine ⟨fun entry hentry => ⟨hcontext entry hentry, ?_⟩, fun c hrecord => ?_⟩
  · intro rows hrows row hrow
    exact (position_lt_getLen hrows row hrow).trans_le (hmetadata entry hentry).2
  · exact recordBatch_bounded (h.cacheEngine_bounded hschedule hw hbegin) hcontext hrecord

/-! ## Preservation -/

/-- A batch entry that goes on has room for the tokens it may generate. -/
theorem RoomInv.room_of_advance (h : RoomInv cfg e) (hinv : EngineInv e)
    (hguard : leavesRoom cfg e (.step inp) = true)
    (hschedule : e.scheduleStep cfg inp = .ok (e₁, out, queue)) {m : SequenceScheduleMetadata}
    (hm : m ∈ out.scheduledSeqMetadataList) {s' : Sequence}
    (hadvance : advance (engineHooks cfg.detokenize) (inp.sampled m.seqId) m.promptChunkLen
      (entering out m.seqId (e.replica.objs m.seqId)) = .ok s') :
    s'.getPromptLen + s'.samplingParams.maxTokens ≤ cfg.scheduler.maxModelLen + 1 := by
  have hspec := BaseLLMEngine.scheduleStep_spec hinv.nodup hschedule
  obtain ⟨hold, -, -⟩ := hspec.objs_of_mem hinv.nodup
    (List.mem_append_right _ (hspec.batch_running _ (List.mem_map_of_mem hm)))
  have hregular := (hinv.live _ hold).regular
  obtain ⟨-, hprompt, hparams⟩ := advance_keeps (engineHooks_textOnly _) hadvance
  rw [Sequence.getPromptLen, hprompt, hparams]
  by_cases hpre : m.seqId ∈ out.preemptedSeqIds
  · -- evicted and admitted again in one call: only a prompt that is not processed yet can
    -- advance, and it has generated nothing
    have hrunning := (hspec.preempted _ hpre).1
    have hunfinished : (e.replica.objs m.seqId).promptProcessingFinished = false := by
      by_contra hfinished
      rw [Bool.not_eq_false] at hfinished
      have hchunk := hspec.chunk m hm hfinished
      have hprocessed := hregular.processed_eq hfinished
      simp only [remainingPrompt, Sequence.getPromptLen, hprocessed] at hchunk
      rcases advance_eq_ok hadvance with ⟨-, hpos, -, -⟩ | ⟨hfin, -⟩
      · omega
      · simp [entering, hpre, recomputed] at hfin
    have hroom := h.running _ hrunning
    simpa [entering, hpre, recomputed, hregular.outputs_nil hunfinished, Sequence.getPromptLen]
      using hroom
  · have hroom : (e.replica.objs m.seqId).getPromptLen +
        (e.replica.objs m.seqId).samplingParams.maxTokens ≤ cfg.scheduler.maxModelLen + 1 := by
      -- admitted in this call, where the guard has asked for room, or running before
      rcases List.mem_append.mp hold with hwaiting | hrunning
      · have hfits : (e.replica.objs m.seqId).getLen ≤ cfg.scheduler.maxModelLen := by
          apply (hspec.admitted m hm).resolve_left
          rintro ⟨hrunning, -⟩
          exact (List.nodup_append.mp hinv.nodup).2.2 _ hwaiting _ hrunning rfl
        have hwait := List.all_eq_true.mp hguard _ hwaiting
        simp only [Bool.or_eq_true, decide_eq_true_eq] at hwait
        have hle : (e.replica.objs m.seqId).getPromptLen ≤ (e.replica.objs m.seqId).getLen :=
          Nat.le_add_left _ _
        omega
      · exact h.running _ hrunning
    simpa [entering, hpre, Sequence.getPromptLen] using hroom

/-- The workers' lengths stay bounded when a batch is executed. -/
theorem RoomInv.executeModel (h : RoomInv cfg e) (hinv : EngineInv e)
    (hschedule : e.scheduleStep cfg inp = .ok (e₁, out, queue))
    {w w' : BaseWorker β VAttnCacheEngine} (hw : w ∈ e₁.workers)
    (hexecute : w.executeModel cfg.padInputs out queue inp.sampled = .ok w') :
    w'.cacheEngine.LensBounded cfg.scheduler.maxModelLen := by
  obtain ⟨w₁, c, hbegin, hstep, -, hcompletion⟩ := executeModel_eq_ok hexecute
  obtain ⟨hcontext, -⟩ := h.contextsBounded hinv e₁ out queue hschedule w hw w₁ hbegin
  have hbound := h.cacheEngine_bounded hschedule hw hbegin
  exact onStepCompletion_bounded
    (step_bounded hbound (fun entry hentry => (hcontext entry hentry).1) hstep) hcompletion

theorem RoomInv.exec {event : Event} (hinv : EngineInv e) (h : RoomInv cfg e)
    (hguard : leavesRoom cfg e event = true) (hexec : e.exec cfg event = .ok e') :
    RoomInv cfg e' := by
  cases event with
  | addRequest req =>
    have hadd := addRequest_view hexec
    refine ⟨fun id hid => ?_, hadd.cacheEngines h.workers⟩
    rw [hadd.scheduler] at hid
    rw [hadd.of_ne (hinv.ne_of_mem hadd (List.mem_append_right _ hid))]
    exact h.running id hid
  | step inp =>
    constructor
    case running =>
      obtain ⟨e₁, out, queue, hschedule, hfinishes⟩ := hinv.exec_step hexec
      intro id hid
      obtain ⟨-, ⟨hold, hsame⟩ | ⟨m, hm, rfl, hadvance, -⟩⟩ :=
        hinv.running_cases hschedule hfinishes hid
      · rw [hsame]
        exact h.running id hold
      · exact h.room_of_advance hinv hguard hschedule hm hadvance
    case workers =>
      obtain ⟨e₁, out, queue, hschedule, ⟨-, rfl⟩ | ⟨-, hexecute⟩⟩ :=
        BaseLLMEngine.exec_step_eq_ok hexec
      · have hworkers := BaseLLMEngine.scheduleStep_workers hschedule
        rw [hworkers]
        exact h.workers
      · obtain ⟨-, -, hworkers, -, -⟩ := BaseLLMEngine.executeStep_eq_ok hexecute
        intro w' hw'
        obtain ⟨w, hw, hmodel⟩ := exists_mem_of_mapM_ok hworkers w' hw'
        exact h.executeModel hinv hschedule hw hmodel

omit [BlockSpaceManager β] in
theorem RoomInv.start (hstart : IsVAttnStart e) : RoomInv cfg e := by
  obtain ⟨blockManager, cacheEngines, hnew, rfl⟩ := hstart
  refine ⟨by simp [BaseLLMEngine.start], fun w hw => ?_⟩
  obtain ⟨c, hc, rfl⟩ := List.mem_map.mp hw
  obtain ⟨config, vattnAsync, newPage, cacheMemSize, rfl⟩ := hnew c hc
  exact fun _ => Nat.zero_le _

/-- **Context bound**: for every policy and block manager, in every run in which each waiting
    sequence leaves room for the tokens it may generate, no context, position or length of the
    next step exceeds `max_model_len`. -/
theorem contexts_bounded_of_leavesRoom (cfg : EngineConfig)
    {e : BaseLLMEngine β VAttnCacheEngine}
    (hreach : ReachesFrom cfg IsVAttnStart (fun e event => leavesRoom cfg e event = true) e)
    (inp : StepInput) : ContextsBounded cfg inp e := by
  obtain ⟨hinv, hroom⟩ := reaches_invariant (RoomInv cfg)
    (fun _ hstart => ⟨hstart.isStart, .start hstart⟩)
    (fun _ _ _ hinv hroom hguard hexec => hroom.exec hinv hguard hexec) hreach
  exact hroom.contextsBounded hinv

/-! ### Two runs -/

/-- An allocator of one layer for two requests of four tokens, with two tokens to a page. -/
def smallAllocator : Allocator.Config where
  numLayers := 1
  maxBatchSize := 2
  maxContextLength := 4
  pageSize := 65536
  tokensPerPage := 2
  megacacheEnabled := false
  numLayers_pos := Nat.one_pos
  pageSize_dvd := Allocator.smallPage_dvd_u64Size
  tokensPerPage_pos := Nat.two_pos

/-- An engine with one worker and vAttention over the given number of blocks. -/
def vattnEngine (numGpuBlocks : Nat) : BaseLLMEngine VAttentionBlockManager VAttnCacheEngine :=
  .start (.new 2 numGpuBlocks) [.new smallAllocator false id (numGpuBlocks * 2 * 65536)]

theorem isVAttnStart_vattnEngine (numGpuBlocks : Nat) :
    IsVAttnStart (vattnEngine numGpuBlocks) := by
  refine ⟨_, _, ?_, rfl⟩
  intro c hc
  obtain rfl := List.mem_singleton.mp hc
  exact ⟨_, _, _, _, rfl⟩

/-- A prompt of three tokens that may generate two. -/
def fittingRun : List Event :=
  [.addRequest ⟨0, [], [1, 2, 3], 0, { maxTokens := 2 }⟩, simpleStep, simpleStep]

theorem fittingRun_contexts_bounded :
    ∃ e, (vattnEngine 4).run vllmConfig fittingRun = .ok e ∧ e.scheduler.running = [0] ∧
      ∀ inp, ContextsBounded vllmConfig inp e := by
  have hrunning : ((vattnEngine 4).run vllmConfig fittingRun).map (·.scheduler.running) =
      .ok [0] := by rfl
  obtain ⟨e, hrun, hlist⟩ := map_eq_ok.mp hrunning
  refine ⟨e, hrun, hlist, contexts_bounded_of_leavesRoom vllmConfig ?_⟩
  exact Reaches.foldlM (fun _ _ => id) (.init (isVAttnStart_vattnEngine 4)) (by decide +kernel) hrun

/-- A prompt of three tokens with the default limit of sixteen. -/
def overrunningRun : List Event :=
  [simpleRequest 0 [1, 2, 3], simpleStep, simpleStep, simpleStep]

/-- The fourth step records a context of five tokens for a model of four. -/
theorem overrunningRun_exceeds :
    ∃ e, (vattnEngine 4).run vllmConfig overrunningRun = .ok e ∧
      ¬ ContextsBounded vllmConfig ⟨9, fun _ => 5⟩ e := by
  have hcontexts : ((vattnEngine 4).run vllmConfig overrunningRun >>= fun e =>
      (e.stepMetadata vllmConfig ⟨9, fun _ => 5⟩).map (List.map (List.map contextLen))) =
        .ok [[5]] := by rfl
  obtain ⟨e, hrun, hstep⟩ := seq_eq_ok.mp hcontexts
  obtain ⟨lists, hlists, hfive⟩ := map_eq_ok.mp hstep
  obtain ⟨e₁, out, queue, hschedule, hworkers⟩ := BaseLLMEngine.stepMetadata_eq_ok hlists
  obtain ⟨l, hl, hcontext⟩ := List.mem_map.mp (hfive ▸ List.mem_singleton_self [5])
  obtain ⟨m, hm, hlen⟩ := List.mem_map.mp (hcontext ▸ List.mem_singleton_self 5)
  obtain ⟨w, hw, w₁, hbegin, rfl⟩ := hworkers l hl
  refine ⟨e, hrun, fun hbounded => ?_⟩
  have hle : contextLen m ≤ 4 :=
    ((hbounded e₁ out queue hschedule w hw w₁ hbegin).1 m hm).1
  rw [hlen] at hle
  exact absurd hle (by decide)

end VAttention.Engine
