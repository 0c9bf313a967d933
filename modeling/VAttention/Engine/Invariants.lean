import VAttention.Engine.Steps
import VAttention.Lib.Runs

/-!
# Invariants of every engine run

`EngineInv` holds at every boundary between two calls, for every policy, block manager and
cache engine, and for any clock and any tokens.  It relates the scheduler's lists, the
engine's objects and the workers' copies of the sequences the scheduler still has.
-/

namespace VAttention.Engine

open VAttention.Core VAttention.Lib VAttention.Scheduler VAttention.Manager VAttention.Worker

variable {β γ : Type}

/-! ## The invariant -/

/-- A sequence the scheduler still has: engine and workers know it, its object is well
    formed, and every worker's copy is the engine's object without its text. -/
structure LiveSeq (e : BaseLLMEngine β γ) (id : SeqId) : Prop where
  known : id ∈ e.replica.seqMap
  seqId : (e.replica.objs id).seqId = id
  regular : Regular (e.replica.objs id)
  workers : ∀ w ∈ e.workers, w.replica.view id = (core (e.replica.objs id), True)

/-- Invariant of the engine between two calls. -/
structure EngineInv (e : BaseLLMEngine β γ) : Prop where
  nodup : (e.scheduler.waiting ++ e.scheduler.running).Nodup
  live : ∀ id ∈ e.scheduler.waiting ++ e.scheduler.running, LiveSeq e id
  /-- A waiting sequence may still be paused: see `EngineInv.waiting_cases`. -/
  waiting : ∀ id ∈ e.scheduler.waiting,
    (e.replica.objs id).status = .waiting ∨ (e.replica.objs id).status = .paused
  running : ∀ id ∈ e.scheduler.running, (e.replica.objs id).status = .paused
  idle : e.scheduler.numRunningBatches = 0

/-! ## Live sequences under the calls -/

theorem LiveSeq.congr {e e' : BaseLLMEngine β γ} {id : SeqId} (h : LiveSeq e id)
    (hengine : e'.replica.view id = e.replica.view id)
    (hworkers : ∀ w' ∈ e'.workers, ∃ w ∈ e.workers, w'.replica.view id = w.replica.view id) :
    LiveSeq e' id := by
  have hobjs : e'.replica.objs id = e.replica.objs id := congrArg Prod.fst hengine
  have hknown : (id ∈ e'.replica.seqMap) = (id ∈ e.replica.seqMap) := congrArg Prod.snd hengine
  constructor
  case known => exact hknown.mpr h.known
  case seqId => rw [hobjs, h.seqId]
  case regular => rw [hobjs]; exact h.regular
  case workers =>
    intro w' hw'
    obtain ⟨w, hw, hview⟩ := hworkers w' hw'
    rw [hobjs, hview, h.workers w hw]

variable [BlockSpaceManager β] {cfg : EngineConfig} {inp : StepInput} {out : SchedulerOutputs}
  {e e₁ e' : BaseLLMEngine β γ} {id : SeqId}

/-- A live sequence that the round does not touch stays as it is. -/
theorem LiveSeq.frame (h : LiveSeq e₁ id) (hview : ExecuteView cfg inp out e₁ e')
    (hignored : id ∉ out.ignoredSeqIds) (hpreempted : id ∉ out.preemptedSeqIds)
    (hbatch : id ∉ out.batchIds) :
    LiveSeq e' id ∧ e'.replica.objs id = e₁.replica.objs id := by
  have hengine := hview.engine.frame id hignored hpreempted hbatch
  refine ⟨h.congr hengine fun w' hw' => ?_, congrArg Prod.fst hengine⟩
  obtain ⟨w, hw, hstep⟩ := hview.workers w' hw'
  exact ⟨w, hw, hstep.frame id hignored hpreempted hbatch⟩

/-- A live sequence that the round evicts is reset on both sides. -/
theorem LiveSeq.preempted (h : LiveSeq e₁ id) (hview : ExecuteView cfg inp out e₁ e')
    (hpreempted : id ∈ out.preemptedSeqIds) (hbatch : id ∉ out.batchIds) :
    LiveSeq e' id ∧ e'.replica.objs id = recomputed (e₁.replica.objs id) := by
  obtain ⟨-, hengine⟩ := hview.engine.preempted id hpreempted hbatch
  have hobjs : e'.replica.objs id = recomputed (e₁.replica.objs id) := congrArg Prod.fst hengine
  refine ⟨⟨?_, ?_, ?_, ?_⟩, hobjs⟩
  · exact of_eq_true (congrArg Prod.snd hengine)
  · rw [hobjs]
    exact h.seqId
  · rw [hobjs]
    exact regular_recomputed _
  · intro w' hw'
    obtain ⟨w, hw, hstep⟩ := hview.workers w' hw'
    rw [(hstep.preempted id hpreempted hbatch).2, h.workers w hw, hobjs]
    rfl

theorem core_entering (out : SchedulerOutputs) (id : SeqId) (s : Sequence) :
    entering out id (core s) = core (entering out id s) := by
  unfold entering
  split_ifs <;> rfl

theorem entering_seqId (out : SchedulerOutputs) (id : SeqId) (s : Sequence) :
    (entering out id s).seqId = s.seqId := by
  unfold entering
  split_ifs <;> rfl

/-- A batch entry that does not finish is live and paused. -/
theorem LiveSeq.batch (h : LiveSeq e₁ id) (hview : ExecuteView cfg inp out e₁ e')
    (hbatch : id ∈ out.batchIds) (hnot : (e'.replica.objs id).isFinished = false) :
    LiveSeq e' id ∧ (e'.replica.objs id).status = .paused := by
  obtain ⟨m, hm, rfl⟩ := List.mem_map.mp hbatch
  obtain ⟨-, s', hadvance, hengine⟩ := hview.engine.batch m hm
  have hobjs : e'.replica.objs m.seqId = s' := congrArg Prod.fst hengine
  rw [hobjs] at hnot
  have htext := engineHooks_textOnly cfg.detokenize
  have hentering : Regular (entering out m.seqId (e₁.replica.objs m.seqId)) :=
    h.regular.entering out m.seqId
  obtain ⟨hregular, hpaused⟩ := advance_regular htext hentering hadvance hnot
  refine ⟨⟨?_, ?_, ?_, ?_⟩, ?_⟩
  · have hknown : (m.seqId ∈ e'.replica.seqMap) = (s'.isFinished = false) :=
      congrArg Prod.snd hengine
    exact hknown.mpr hnot
  · rw [hobjs, (advance_keeps htext hadvance).1, entering_seqId]
    exact h.seqId
  · rwa [hobjs]
  · intro w' hw'
    obtain ⟨w, hw, hstep⟩ := hview.workers w' hw'
    obtain ⟨-, s'', hadvance', hworker⟩ := hstep.batch m hm
    -- the worker advances the core of what the engine advances
    rw [h.workers w hw, core_entering] at hadvance'
    have hsame := advance_core β htext hadvance hnot
    obtain rfl : s'' = core s' := Except.ok.inj (hadvance'.symm.trans hsame)
    rw [hworker, hobjs]
    simpa [core, Sequence.isFinished] using hnot
  · rw [hobjs]
    exact hpaused

/-! ## Preservation -/

variable [CacheEngine γ] {queue : List SeqId}

/-- Between scheduling and executing, the sequences the scheduler has are live. -/
theorem EngineInv.live_of_schedule (h : EngineInv e)
    (hschedule : e.scheduleStep cfg inp = .ok (e₁, out, queue)) {id : SeqId}
    (hid : id ∈ e₁.scheduler.waiting ++ e₁.scheduler.running) :
    LiveSeq e₁ id ∧ e₁.replica.objs id = e.replica.objs id := by
  have hspec := BaseLLMEngine.scheduleStep_spec h.nodup hschedule
  obtain ⟨hold, -, hobjs⟩ := ScheduleSpec.objs_of_mem hspec h.nodup hid
  have hworkers := BaseLLMEngine.scheduleStep_workers hschedule
  refine ⟨(h.live id hold).congr ?_ ?_, hobjs⟩
  · rw [BaseLLMEngine.scheduleStep_view hschedule, hobjs]
    rfl
  · intro w hw
    exact ⟨w, hworkers ▸ hw, rfl⟩

/-- The object of a batch entry on a worker, once its scheduling round has begun. -/
theorem EngineInv.beginStep_objs (h : EngineInv e)
    (hschedule : e.scheduleStep cfg inp = .ok (e₁, out, queue))
    {w w₁ : BaseWorker β γ} (hw : w ∈ e₁.workers)
    (hbegin : w.beginStep out queue = .ok w₁) {m : SequenceScheduleMetadata}
    (hm : m ∈ out.scheduledSeqMetadataList) :
    Regular (e.replica.objs m.seqId) ∧ (e.replica.objs m.seqId).seqId = m.seqId ∧
      w₁.replica.objs m.seqId = core (entering out m.seqId (e.replica.objs m.seqId)) := by
  have hspec := BaseLLMEngine.scheduleStep_spec h.nodup hschedule
  have hbatch : m.seqId ∈ out.batchIds := List.mem_map_of_mem hm
  obtain ⟨hlive, hobjs⟩ := h.live_of_schedule hschedule
    (List.mem_append_right _ (hspec.batch_running _ hbatch))
  obtain ⟨⟨ext, hround⟩, -⟩ := beginStep_eq_ok hbegin
  obtain ⟨-, hentering, -⟩ := Replica.onSchedule_view (hspec.wellFormed h.nodup) hround
  have hself : w₁.replica.objs m.seqId = entering out m.seqId (w.replica.objs m.seqId) :=
    congrArg Prod.fst (hentering m.seqId hbatch).2
  have hworker : w.replica.objs m.seqId = core (e₁.replica.objs m.seqId) :=
    congrArg Prod.fst (hlive.workers w hw)
  rw [hself, hworker, core_entering, hobjs]
  exact ⟨hobjs ▸ hlive.regular, hobjs ▸ hlive.seqId, rfl⟩

/-- The objects of a batch entry on a worker carry the id they are filed under. -/
theorem EngineInv.onStepCompleted_seqId (h : EngineInv e)
    (hschedule : e.scheduleStep cfg inp = .ok (e₁, out, queue))
    {w w₁ : BaseWorker β γ} {r : Replica β} (hw : w ∈ e₁.workers)
    (hbegin : w.beginStep out queue = .ok w₁)
    (hcompleted : w₁.replica.onStepCompleted (workerHooks β) out inp.sampled = .ok r)
    {m : SequenceScheduleMetadata} (hm : m ∈ out.scheduledSeqMetadataList) :
    (r.objs m.seqId).seqId = m.seqId := by
  have hspec := BaseLLMEngine.scheduleStep_spec h.nodup hschedule
  obtain ⟨hlive, -⟩ := h.live_of_schedule hschedule
    (List.mem_append_right _ (hspec.batch_running _ (List.mem_map_of_mem hm)))
  have hview := onStepCompleted_view (hspec.wellFormed h.nodup) hbegin hcompleted
  obtain ⟨-, s', hadvance, hobjs⟩ := hview.batch m hm
  have hself : r.objs m.seqId = s' := congrArg Prod.fst hobjs
  rw [hlive.workers w hw] at hadvance
  rw [hself, (advance_keeps (workerHooks_textOnly β) hadvance).1, entering_seqId]
  exact hlive.seqId

theorem EngineInv.executeModel_seqId (h : EngineInv e)
    (hschedule : e.scheduleStep cfg inp = .ok (e₁, out, queue))
    {w w' : BaseWorker β γ} (hw : w ∈ e₁.workers)
    (hexecute : w.executeModel cfg.padInputs out queue inp.sampled = .ok w')
    {m : SequenceScheduleMetadata} (hm : m ∈ out.scheduledSeqMetadataList) :
    (w'.replica.objs m.seqId).seqId = m.seqId := by
  obtain ⟨w₁, c, hbegin, -, hcompleted, -⟩ := executeModel_eq_ok hexecute
  exact h.onStepCompleted_seqId hschedule hw hbegin hcompleted hm

/-- What follows scheduling: nothing if the batch is empty, else the execution of the batch. -/
def Finishes (cfg : EngineConfig) (inp : StepInput) (out : SchedulerOutputs)
    (e₁ e' : BaseLLMEngine β γ) : Prop :=
  out.isEmpty = true ∧ e' = e₁ ∨ out.isEmpty = false ∧ ExecuteView cfg inp out e₁ e'

/-- **Where the waiting sequences come from**: they were waiting before and are untouched, or
    were running and have been evicted; the reset of an evicted sequence is skipped if the
    batch is empty. -/
theorem EngineInv.waiting_cases (h : EngineInv e)
    (hschedule : e.scheduleStep cfg inp = .ok (e₁, out, queue))
    (hfinishes : Finishes cfg inp out e₁ e') {id : SeqId} (hid : id ∈ e'.scheduler.waiting) :
    LiveSeq e' id ∧
      (id ∈ e.scheduler.waiting ∧ e'.replica.objs id = e.replica.objs id ∨
        id ∈ e.scheduler.running ∧ id ∈ out.preemptedSeqIds ∧
          e'.replica.objs id =
            if out.isEmpty then e.replica.objs id else recomputed (e.replica.objs id)) := by
  have hspec := BaseLLMEngine.scheduleStep_spec h.nodup hschedule
  rcases hfinishes with ⟨hempty, rfl⟩ | ⟨hempty, hview⟩
  · obtain ⟨hlive, hobjs⟩ := h.live_of_schedule hschedule (List.mem_append_left _ hid)
    rw [hobjs, if_pos hempty]
    refine ⟨hlive, (hspec.waiting id hid).imp (fun hold => ⟨hold, rfl⟩) fun hpre => ?_⟩
    exact ⟨(hspec.preempted id hpre).1, hpre, rfl⟩
  · rw [hview.scheduler] at hid
    have hmem := List.mem_append_left e₁.scheduler.running hid
    obtain ⟨hlive, hobjs⟩ := h.live_of_schedule hschedule hmem
    have hign := (hspec.objs_of_mem h.nodup hmem).2.1
    -- a scheduled sequence is running
    have hbatch : id ∉ out.batchIds := fun hb =>
      (List.nodup_append.mp (hspec.nodup h.nodup)).2.2 id hid id (hspec.batch_running id hb) rfl
    by_cases hpre : id ∈ out.preemptedSeqIds
    · obtain ⟨hlive', hreset⟩ := hlive.preempted hview hpre hbatch
      exact ⟨hlive', .inr ⟨(hspec.preempted id hpre).1, hpre, by simp [hempty, hreset, hobjs]⟩⟩
    · obtain ⟨hlive', hsame⟩ := hlive.frame hview hign hpre hbatch
      exact ⟨hlive', .inl ⟨(hspec.waiting id hid).resolve_right hpre, hsame.trans hobjs⟩⟩

/-- **Where the running sequences come from**: they were running before and are untouched, or
    they are entries of the batch and have advanced without finishing. -/
theorem EngineInv.running_cases (h : EngineInv e)
    (hschedule : e.scheduleStep cfg inp = .ok (e₁, out, queue))
    (hfinishes : Finishes cfg inp out e₁ e') {id : SeqId} (hid : id ∈ e'.scheduler.running) :
    LiveSeq e' id ∧
      (id ∈ e.scheduler.running ∧ e'.replica.objs id = e.replica.objs id ∨
        ∃ m ∈ out.scheduledSeqMetadataList, m.seqId = id ∧
          advance (engineHooks cfg.detokenize) (inp.sampled id) m.promptChunkLen
            (entering out id (e.replica.objs id)) = .ok (e'.replica.objs id) ∧
          (e'.replica.objs id).isFinished = false) := by
  have hspec := BaseLLMEngine.scheduleStep_spec h.nodup hschedule
  rcases hfinishes with ⟨hempty, rfl⟩ | ⟨hempty, hview⟩
  · obtain ⟨hlive, hobjs⟩ := h.live_of_schedule hschedule (List.mem_append_right _ hid)
    have hbatch : out.batchIds = [] := by
      simpa [SchedulerOutputs.isEmpty, scheduledIds] using hempty
    have hold := (hspec.running id hid).resolve_left (by simp [hbatch])
    exact ⟨hlive, .inl ⟨hold.1, hobjs⟩⟩
  -- `on_step_completed` keeps what has not finished
  · have hfilter : id ∈ e₁.scheduler.running ∧ (e'.replica.objs id).isFinished = false := by
      rw [hview.scheduler] at hid
      simpa [SchedulerState.onStepCompleted] using hid
    obtain ⟨hrunning, hnot⟩ := hfilter
    have hmem := List.mem_append_right e₁.scheduler.waiting hrunning
    obtain ⟨hlive, hobjs⟩ := h.live_of_schedule hschedule hmem
    by_cases hbatch : id ∈ out.batchIds
    · obtain ⟨m, hm, rfl⟩ := List.mem_map.mp hbatch
      refine ⟨(hlive.batch hview hbatch hnot).1, .inr ⟨m, hm, rfl, ?_, hnot⟩⟩
      obtain ⟨-, s', hadvance, hengine⟩ := hview.engine.batch m hm
      have hs' : e'.replica.objs m.seqId = s' := congrArg Prod.fst hengine
      rw [hs', ← hobjs]
      exact hadvance
    · obtain ⟨hold, hpre⟩ := (hspec.running id hrunning).resolve_left hbatch
      have hign := (hspec.objs_of_mem h.nodup hmem).2.1
      obtain ⟨hlive', hsame⟩ := hlive.frame hview hign hpre hbatch
      exact ⟨hlive', .inl ⟨hold, hsame.trans hobjs⟩⟩

/-- A step keeps the invariant. -/
theorem EngineInv.step (h : EngineInv e)
    (hschedule : e.scheduleStep cfg inp = .ok (e₁, out, queue))
    (hfinishes : Finishes cfg inp out e₁ e') : EngineInv e' := by
  have hspec := BaseLLMEngine.scheduleStep_spec h.nodup hschedule
  constructor
  case nodup =>
    rcases hfinishes with ⟨-, rfl⟩ | ⟨-, hview⟩
    · exact hspec.nodup h.nodup
    · rw [hview.scheduler]
      exact (hspec.nodup h.nodup).sublist (List.Sublist.append_left List.filter_sublist _)
  case live =>
    intro id hid
    rcases List.mem_append.mp hid with hid | hid
    · exact (h.waiting_cases hschedule hfinishes hid).1
    · exact (h.running_cases hschedule hfinishes hid).1
  case waiting =>
    intro id hid
    rcases (h.waiting_cases hschedule hfinishes hid).2 with ⟨hold, hsame⟩ | ⟨hold, -, hobjs⟩
    · rw [hsame]
      exact h.waiting id hold
    · rw [hobjs]
      split_ifs
      · exact .inr (h.running id hold)
      · exact .inl rfl
  case running =>
    intro id hid
    obtain ⟨-, ⟨hold, hsame⟩ | ⟨m, hm, rfl, hadvance, hnot⟩⟩ :=
      h.running_cases hschedule hfinishes hid
    · rw [hsame]
      exact h.running id hold
    · have hold := hspec.objs_of_mem h.nodup
        (List.mem_append_right _ (hspec.batch_running _ (List.mem_map_of_mem hm)))
      have hentering := (h.live _ hold.1).regular.entering out m.seqId
      exact (advance_regular (engineHooks_textOnly _) hentering hadvance hnot).2
  case idle =>
    rcases hfinishes with ⟨hempty, rfl⟩ | ⟨hempty, hview⟩
    · rw [hspec.numRunningBatches, h.idle, hempty]
      rfl
    · rw [hview.scheduler]
      simp [SchedulerState.onStepCompleted, hspec.numRunningBatches, h.idle, hempty]

/-- A successful step in terms of the two lemmas above. -/
theorem EngineInv.exec_step (h : EngineInv e) (hexec : e.exec cfg (.step inp) = .ok e') :
    ∃ e₁ out queue, e.scheduleStep cfg inp = .ok (e₁, out, queue) ∧
      Finishes cfg inp out e₁ e' := by
  obtain ⟨e₁, out, queue, hschedule, hrest⟩ := BaseLLMEngine.exec_step_eq_ok hexec
  refine ⟨e₁, out, queue, hschedule, hrest.imp_right fun ⟨hempty, hexecute⟩ => ⟨hempty, ?_⟩⟩
  have hspec := BaseLLMEngine.scheduleStep_spec h.nodup hschedule
  exact executeStep_view (hspec.wellFormed h.nodup) hexecute

/-! ## Reachable states -/

theorem regular_toSequence (cfg : EngineConfig) (req : Request) : Regular (req.toSequence cfg) where
  outputs_nil _ := rfl
  processed_eq h := by cases h
  processed_le := Nat.zero_le _
  output_lt := req.samplingParams.maxTokens_pos

omit [BlockSpaceManager β] [CacheEngine γ] in
/-- Adding a request leaves the other sequences alone. -/
theorem AddView.of_ne {req : Request} (h : AddView cfg req e e') {id : SeqId}
    (hne : id ≠ req.seqId) : e'.replica.objs id = e.replica.objs id := by
  have hview := h.engine id
  rw [if_neg hne] at hview
  exact congrArg Prod.fst hview

omit [BlockSpaceManager β] [CacheEngine γ] in
theorem AddView.objs_self {req : Request} (h : AddView cfg req e e') :
    e'.replica.objs req.seqId = req.toSequence cfg := by
  have hview := h.engine req.seqId
  rw [if_pos rfl] at hview
  exact congrArg Prod.fst hview

omit [BlockSpaceManager β] [CacheEngine γ] in
/-- A sequence the scheduler has is not the new one. -/
theorem EngineInv.ne_of_mem {req : Request} (h : EngineInv e) (hadd : AddView cfg req e e')
    {id : SeqId} (hid : id ∈ e.scheduler.waiting ++ e.scheduler.running) : id ≠ req.seqId := by
  rintro rfl
  exact hadd.fresh (h.live _ hid).known

omit [BlockSpaceManager β] [CacheEngine γ] in
theorem LiveSeq.added {req : Request} (hadd : AddView cfg req e e') : LiveSeq e' req.seqId := by
  have hview := hadd.engine req.seqId
  rw [if_pos rfl] at hview
  constructor
  case known => exact of_eq_true (congrArg Prod.snd hview)
  case seqId => rw [hadd.objs_self]; rfl
  case regular => rw [hadd.objs_self]; exact regular_toSequence cfg req
  case workers =>
    intro w' hw'
    obtain ⟨w, -, -, -, hworker⟩ := hadd.workers w' hw'
    rw [hworker, if_pos rfl, hadd.objs_self]
    rfl

omit [BlockSpaceManager β] [CacheEngine γ] in
theorem EngineInv.addRequest {req : Request} (h : EngineInv e) (hadd : AddView cfg req e e') :
    EngineInv e' := by
  -- the sequences the scheduler has are others than the new one
  have hold : ∀ id ∈ e.scheduler.waiting ++ e.scheduler.running, LiveSeq e' id := by
    intro id hid
    have hne := h.ne_of_mem hadd hid
    refine (h.live id hid).congr ?_ fun w' hw' => ?_
    · rw [hadd.engine, if_neg hne]
    · obtain ⟨w, hw, -, -, hworker⟩ := hadd.workers w' hw'
      exact ⟨w, hw, by rw [hworker, if_neg hne]⟩
  have hnew : req.seqId ∉ e.scheduler.waiting ++ e.scheduler.running := fun hmem =>
    h.ne_of_mem hadd hmem rfl
  constructor
  case nodup =>
    rw [hadd.scheduler]
    have hperm : ((e.scheduler.waiting ++ [req.seqId]) ++ e.scheduler.running).Perm
        (req.seqId :: (e.scheduler.waiting ++ e.scheduler.running)) := by
      rw [List.append_assoc]
      exact List.perm_middle
    exact hperm.nodup_iff.mpr (List.nodup_cons.mpr ⟨hnew, h.nodup⟩)
  case live =>
    intro id hid
    rw [hadd.scheduler] at hid
    simp only [SchedulerState.addSeq, List.mem_append, List.mem_singleton] at hid
    rcases hid with (hid | rfl) | hid
    · exact hold id (List.mem_append_left _ hid)
    · exact LiveSeq.added hadd
    · exact hold id (List.mem_append_right _ hid)
  case waiting =>
    intro id hid
    rw [hadd.scheduler] at hid
    rcases List.mem_append.mp hid with hid | hid
    · rw [hadd.of_ne (h.ne_of_mem hadd (List.mem_append_left _ hid))]
      exact h.waiting id hid
    · obtain rfl := List.mem_singleton.mp hid
      rw [hadd.objs_self]
      exact .inl rfl
  case running =>
    intro id hid
    rw [hadd.scheduler] at hid
    rw [hadd.of_ne (h.ne_of_mem hadd (List.mem_append_right _ hid))]
    exact h.running id hid
  case idle =>
    rw [hadd.scheduler]
    exact h.idle

/-- The states of an engine that starts empty, with some block manager and some workers, and
    executes calls that meet `guard`. -/
abbrev ReachesFrom (cfg : EngineConfig) (init : BaseLLMEngine β γ → Prop)
    (guard : BaseLLMEngine β γ → Event → Prop) : BaseLLMEngine β γ → Prop :=
  Reaches (fun event e => e.exec cfg event) init guard

omit [BlockSpaceManager β] [CacheEngine γ] in
/-- An engine before its first call, with any block manager and any workers. -/
def IsStart (e : BaseLLMEngine β γ) : Prop :=
  ∃ blockManager cacheEngines, e = .start blockManager cacheEngines

omit [BlockSpaceManager β] [CacheEngine γ] in
theorem EngineInv.start (blockManager : β) (cacheEngines : List γ) :
    EngineInv (BaseLLMEngine.start blockManager cacheEngines) where
  nodup := List.nodup_nil
  live := by simp [BaseLLMEngine.start]
  waiting := by simp [BaseLLMEngine.start]
  running := by simp [BaseLLMEngine.start]
  idle := rfl

/-- **Every call keeps the invariant.** -/
theorem EngineInv.exec {event : Event} (h : EngineInv e) (hexec : e.exec cfg event = .ok e') :
    EngineInv e' := by
  cases event with
  | addRequest req => exact h.addRequest (addRequest_view hexec)
  | step inp =>
    obtain ⟨e₁, out, queue, hschedule, hfinishes⟩ := h.exec_step hexec
    exact h.step hschedule hfinishes

/-- **Run lemma**: an invariant that holds at the start, and that every call with the guard keeps
    next to `EngineInv`, holds in every state reached. -/
theorem reaches_invariant {init : BaseLLMEngine β γ → Prop}
    {guard : BaseLLMEngine β γ → Event → Prop} (P : BaseLLMEngine β γ → Prop)
    (hinit : ∀ e, init e → IsStart e ∧ P e)
    (hstep : ∀ e event e', EngineInv e → P e → guard e event → e.exec cfg event = .ok e' → P e')
    (hreach : ReachesFrom cfg init guard e) : EngineInv e ∧ P e := by
  apply hreach.invariant (fun e => EngineInv e ∧ P e)
  · intro e he
    obtain ⟨⟨blockManager, cacheEngines, rfl⟩, hP⟩ := hinit e he
    exact ⟨.start blockManager cacheEngines, hP⟩
  · rintro e event e' ⟨hinv, hP⟩ hguard hexec
    exact ⟨hinv.exec hexec, hstep e event e' hinv hP hguard hexec⟩

/-- The same for engines with any block manager and any workers. -/
theorem reaches_invariant_of_start {guard : BaseLLMEngine β γ → Event → Prop}
    (P : BaseLLMEngine β γ → Prop)
    (hstart : ∀ blockManager cacheEngines, P (.start blockManager cacheEngines))
    (hstep : ∀ e event e', EngineInv e → P e → guard e event → e.exec cfg event = .ok e' → P e')
    (hreach : ReachesFrom cfg IsStart guard e) : EngineInv e ∧ P e := by
  refine reaches_invariant P (fun e he => ⟨he, ?_⟩) hstep hreach
  obtain ⟨blockManager, cacheEngines, rfl⟩ := he
  exact hstart blockManager cacheEngines

theorem engineInv_of_reaches {init : BaseLLMEngine β γ → Prop}
    {guard : BaseLLMEngine β γ → Event → Prop} (hinit : ∀ e, init e → IsStart e)
    (hreach : ReachesFrom cfg init guard e) : EngineInv e :=
  (reaches_invariant (fun _ => True) (fun e he => ⟨hinit e he, trivial⟩)
    (fun _ _ _ _ _ _ _ => trivial) hreach).1

end VAttention.Engine
