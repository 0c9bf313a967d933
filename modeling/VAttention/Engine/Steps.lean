import VAttention.Engine.Model
import VAttention.Manager.Rounds
import VAttention.Scheduler.Invariants

/-!
# The parts of an engine step

A successful `step` has scheduled and, unless the batch is empty, executed.  The lemmas here
take the two parts apart and say what each does to the sequence objects of the engine
(`ScheduleSpec`, `StepView`) and of every worker (`StepView`).
-/

namespace VAttention.Engine

open VAttention.Core VAttention.Lib VAttention.Scheduler VAttention.Manager VAttention.Worker

variable {β γ : Type} [BlockSpaceManager β] [CacheEngine γ] {cfg : EngineConfig}

namespace BaseLLMEngine

variable {e e₁ e' : BaseLLMEngine β γ} {inp : StepInput} {out : SchedulerOutputs}
  {queue : List SeqId}

/-! ## Taking a step apart -/

/-- A step that succeeds has scheduled, and executed the batch unless it is empty. -/
theorem exec_step_eq_ok (h : e.exec cfg (.step inp) = .ok e') :
    ∃ e₁ out queue, e.scheduleStep cfg inp = .ok (e₁, out, queue) ∧
      (out.isEmpty = true ∧ e' = e₁ ∨
        out.isEmpty = false ∧ e₁.executeStep cfg inp out queue = .ok e') := by
  obtain ⟨⟨e₂, outputs⟩, hstep, h⟩ := seq_eq_ok.mp h
  cases h
  obtain ⟨⟨e₁, out, queue⟩, hschedule, h⟩ := seq_eq_ok.mp hstep
  refine ⟨e₁, out, queue, hschedule, ?_⟩
  dsimp only at h
  split_ifs at h with hempty
  · cases h
    exact .inl ⟨hempty, rfl⟩
  · obtain ⟨e₃, hexecute, h⟩ := seq_eq_ok.mp h
    cases h
    exact .inr ⟨by simpa using hempty, hexecute⟩

/-- Scheduling changes the scheduler and the objects it shares with the engine. -/
theorem scheduleStep_eq_ok (h : e.scheduleStep cfg inp = .ok (e₁, out, queue)) :
    ∃ freeBlocks,
      (e.workers.map fun w => CacheEngine.numFreeBlocks w.cacheEngine).min? = some freeBlocks ∧
      queue = (BlockSpaceManager.takePreemptionQueue e.scheduler.blockManager).1 ∧
      schedule cfg.scheduler inp.now e.replica.objs
          { e.scheduler with
            blockManager := BlockSpaceManager.setFreeBlocks
              (BlockSpaceManager.takePreemptionQueue e.scheduler.blockManager).2 freeBlocks } =
        .ok (e₁.replica.objs, e₁.scheduler, out) ∧
      e₁.replica = { e.replica with objs := e₁.replica.objs } ∧ e₁.workers = e.workers := by
  unfold scheduleStep at h
  split at h
  · cases h
  · rename_i freeBlocks hfree
    obtain ⟨⟨objs, scheduler, out'⟩, hschedule, h⟩ := seq_eq_ok.mp h
    cases h
    exact ⟨freeBlocks, hfree, rfl, hschedule, rfl, rfl⟩

theorem scheduleStep_workers (h : e.scheduleStep cfg inp = .ok (e₁, out, queue)) :
    e₁.workers = e.workers := by
  obtain ⟨-, -, -, -, -, hworkers⟩ := scheduleStep_eq_ok h
  exact hworkers

theorem scheduleStep_spec (hnodup : (e.scheduler.waiting ++ e.scheduler.running).Nodup)
    (h : e.scheduleStep cfg inp = .ok (e₁, out, queue)) :
    ScheduleSpec cfg.scheduler inp.now e.replica.objs e.scheduler e₁.replica.objs e₁.scheduler
      out := by
  obtain ⟨freeBlocks, -, -, hschedule, -, -⟩ := scheduleStep_eq_ok h
  have hspec := schedule_spec (by exact hnodup) hschedule
  exact ⟨hspec.perm, hspec.objs_eq, hspec.ignored, hspec.batch_nodup, hspec.batch_running,
    hspec.preempted, hspec.preempted_nodup, hspec.waiting, hspec.running, hspec.admitted,
    hspec.chunk, hspec.numRunningBatches⟩

/-- The view of the engine between scheduling and executing. -/
theorem scheduleStep_view (h : e.scheduleStep cfg inp = .ok (e₁, out, queue)) (id : SeqId) :
    e₁.replica.view id = (e₁.replica.objs id, id ∈ e.replica.seqMap) := by
  obtain ⟨-, -, -, -, hreplica, -⟩ := scheduleStep_eq_ok h
  rw [hreplica]
  rfl

theorem executeStep_eq_ok (h : e₁.executeStep cfg inp out queue = .ok e') :
    ∃ r, e₁.replica.onSchedule (engineHooks cfg.detokenize) out = .ok r ∧
      e₁.workers.mapM (BaseWorker.executeModel cfg.padInputs out queue inp.sampled) =
        .ok e'.workers ∧
      r.onStepCompleted (engineHooks cfg.detokenize) out inp.sampled = .ok e'.replica ∧
      e'.scheduler = e₁.scheduler.onStepCompleted e'.replica.objs := by
  obtain ⟨r, hschedule, h⟩ := seq_eq_ok.mp h
  obtain ⟨workers, hworkers, h⟩ := seq_eq_ok.mp h
  obtain ⟨r', hcompleted, h⟩ := seq_eq_ok.mp h
  cases h
  exact ⟨r, hschedule, hworkers, hcompleted, rfl⟩

end BaseLLMEngine

omit [BlockSpaceManager β] in
/-- What a manager asserts when a round begins holds if it knows the sequences of the scheduler,
    with the status they have there, and those that enter the batch are not under way. -/
theorem begins_of_schedule {now : Time} {objs objs' : Heap} {s s' : SchedulerState β}
    {out : SchedulerOutputs} (hspec : ScheduleSpec cfg.scheduler now objs s objs' s' out)
    (hnodup : (s.waiting ++ s.running).Nodup)
    (hready : ∀ id ∈ out.batchIds, id ∈ out.preemptedSeqIds ∨ (objs id).status = .waiting ∨
      (objs id).status = .paused)
    {v : SeqId → Sequence × Prop}
    (hv : ∀ id ∈ s.waiting ++ s.running, (v id).2 ∧
      (id ∉ out.ignoredSeqIds → (v id).1.status = (objs id).status)) :
    Begins out v := by
  have hwf := hspec.wellFormed hnodup
  constructor
  case ignored =>
    intro id hid
    have hmem : id ∈ s'.waiting ++ (s'.running ++ out.ignoredSeqIds) := by simp [hid]
    exact (hv id (hspec.perm.mem_iff.mp hmem)).1
  case preempted =>
    intro id hid
    obtain ⟨hrunning, hexecuting⟩ := hspec.preempted id hid
    obtain ⟨hknown, hstatus⟩ := hv id (List.mem_append_right _ hrunning)
    refine ⟨hknown, ?_⟩
    rw [Sequence.isExecuting, hstatus fun hign => hwf.ignored_preempted id hign hid]
    exact hexecuting
  case batch =>
    intro id hid
    obtain ⟨hold, hign, -⟩ := hspec.objs_of_mem hnodup
      (List.mem_append_right _ (hspec.batch_running id hid))
    obtain ⟨hknown, hstatus⟩ := hv id hold
    refine ⟨hknown, ?_⟩
    rw [hstatus hign]
    exact hready id hid

/-! ## Workers -/

theorem beginStep_eq_ok {w w₁ : BaseWorker β γ} {out : SchedulerOutputs} {queue : List SeqId}
    (h : w.beginStep out queue = .ok w₁) :
    (∃ ext, Replica.onSchedule (workerHooks β) out { w.replica with ext } = .ok w₁.replica) ∧
      BaseWorker.preemptRequests queue w.cacheEngine = .ok w₁.cacheEngine := by
  obtain ⟨r, hschedule, h⟩ := seq_eq_ok.mp h
  obtain ⟨c, hcache, h⟩ := seq_eq_ok.mp h
  cases h
  exact ⟨⟨_, hschedule⟩, hcache⟩

/-- The parts of `execute_model`. -/
theorem executeModel_eq_ok {padInputs : Bool} {w w' : BaseWorker β γ} {out : SchedulerOutputs}
    {queue : List SeqId} {sampled : SeqId → TokenId}
    (h : w.executeModel padInputs out queue sampled = .ok w') :
    ∃ w₁ c, w.beginStep out queue = .ok w₁ ∧
      CacheEngine.step (w₁.replica.metadataList out) w₁.cacheEngine = .ok c ∧
      w₁.replica.onStepCompleted (workerHooks β) out sampled = .ok w'.replica ∧
      CacheEngine.onStepCompletion (w'.replica.metadataList out) c = .ok w'.cacheEngine := by
  obtain ⟨w₁, hbegin, h⟩ := seq_eq_ok.mp h
  obtain ⟨c, hstep, h⟩ := seq_eq_ok.mp h
  obtain ⟨rows, -, h⟩ := seq_eq_ok.mp h
  obtain ⟨r, hcompleted, h⟩ := seq_eq_ok.mp h
  obtain ⟨c', hcompletion, h⟩ := seq_eq_ok.mp h
  cases h
  exact ⟨w₁, c, hbegin, hstep, hcompleted, hcompletion⟩

/-- `execute_model` has found model input for every entry. -/
theorem executeModel_inputs {padInputs : Bool} {w w' w₁ : BaseWorker β γ} {out : SchedulerOutputs}
    {queue : List SeqId} {sampled : SeqId → TokenId}
    (h : w.executeModel padInputs out queue sampled = .ok w')
    (hbegin : w.beginStep out queue = .ok w₁) :
    ∃ rows, Executor.prepareInputs padInputs (w₁.replica.metadataList out) = .ok rows := by
  obtain ⟨w₂, hbegin₂, h₂⟩ := seq_eq_ok.mp h
  obtain ⟨c, -, h₃⟩ := seq_eq_ok.mp h₂
  obtain ⟨rows, hrows, -⟩ := seq_eq_ok.mp h₃
  cases hbegin.symm.trans hbegin₂
  exact ⟨rows, hrows⟩

/-- The sequences of a worker after its round, whatever becomes of its cache. -/
theorem onStepCompleted_view {w w₁ : BaseWorker β γ} {r : Replica β} {out : SchedulerOutputs}
    {queue : List SeqId} {sampled : SeqId → TokenId} (hout : out.WellFormed)
    (hbegin : w.beginStep out queue = .ok w₁)
    (hcompleted : w₁.replica.onStepCompleted (workerHooks β) out sampled = .ok r) :
    StepView (workerHooks β) out sampled w.replica.view r.view := by
  obtain ⟨⟨ext, hschedule⟩, -⟩ := beginStep_eq_ok hbegin
  have hview : ({ w.replica with ext } : Replica β).view = w.replica.view := rfl
  rw [← hview]
  exact Replica.stepView hout hschedule hcompleted

theorem executeModel_view {padInputs : Bool} {w w' : BaseWorker β γ} {out : SchedulerOutputs}
    {queue : List SeqId} {sampled : SeqId → TokenId} (hout : out.WellFormed)
    (h : w.executeModel padInputs out queue sampled = .ok w') :
    StepView (workerHooks β) out sampled w.replica.view w'.replica.view := by
  obtain ⟨w₁, c, hbegin, -, hcompleted, -⟩ := executeModel_eq_ok h
  exact onStepCompleted_view hout hbegin hcompleted

/-- The metadata lists that the workers pass to their cache engines, model runners and samplers
    in the next step. -/
def BaseLLMEngine.stepMetadata (cfg : EngineConfig) (inp : StepInput) (e : BaseLLMEngine β γ) :
    Except PyError (List (List SequenceMetadata)) := do
  let (e₁, out, queue) ← e.scheduleStep cfg inp
  let workers ← e₁.workers.mapM (BaseWorker.beginStep out queue)
  pure (workers.map fun w => w.replica.metadataList out)

theorem BaseLLMEngine.stepMetadata_eq_ok {e : BaseLLMEngine β γ} {inp : StepInput}
    {lists : List (List SequenceMetadata)} (h : e.stepMetadata cfg inp = .ok lists) :
    ∃ e₁ out queue, e.scheduleStep cfg inp = .ok (e₁, out, queue) ∧
      ∀ l ∈ lists, ∃ w ∈ e₁.workers, ∃ w₁, w.beginStep out queue = .ok w₁ ∧
        l = w₁.replica.metadataList out := by
  obtain ⟨⟨e₁, out, queue⟩, hschedule, hrest⟩ := seq_eq_ok.mp h
  obtain ⟨workers, hworkers, hlists⟩ := seq_eq_ok.mp hrest
  cases hlists
  refine ⟨e₁, out, queue, hschedule, fun l hl => ?_⟩
  obtain ⟨w₁, hw₁, rfl⟩ := List.mem_map.mp hl
  obtain ⟨w, hw, hbegin⟩ := exists_mem_of_mapM_ok hworkers w₁ hw₁
  exact ⟨w, hw, w₁, hbegin, rfl⟩

/-! ## The effect of executing a batch -/

/-- What executing a batch does to the sequences, on the engine and on every worker. -/
structure ExecuteView (cfg : EngineConfig) (inp : StepInput) (out : SchedulerOutputs)
    (e₁ e' : BaseLLMEngine β γ) : Prop where
  engine : StepView (engineHooks cfg.detokenize) out inp.sampled e₁.replica.view e'.replica.view
  workers : ∀ w' ∈ e'.workers, ∃ w ∈ e₁.workers,
    StepView (workerHooks β) out inp.sampled w.replica.view w'.replica.view
  scheduler : e'.scheduler = e₁.scheduler.onStepCompleted e'.replica.objs

theorem executeStep_view {e₁ e' : BaseLLMEngine β γ} {inp : StepInput} {out : SchedulerOutputs}
    {queue : List SeqId} (hout : out.WellFormed)
    (h : e₁.executeStep cfg inp out queue = .ok e') : ExecuteView cfg inp out e₁ e' := by
  obtain ⟨r, hschedule, hworkers, hcompleted, hscheduler⟩ := BaseLLMEngine.executeStep_eq_ok h
  refine ⟨Replica.stepView hout hschedule hcompleted, fun w' hw' => ?_, hscheduler⟩
  obtain ⟨w, hw, hexecute⟩ := exists_mem_of_mapM_ok hworkers w' hw'
  exact ⟨w, hw, executeModel_view hout hexecute⟩

/-! ## Adding a request -/

theorem addSeq_eq_ok {μ : Type} {r r' : Replica μ} {seq : Sequence} (h : r.addSeq seq = .ok r') :
    seq.seqId ∉ r.seqMap ∧
      r' = { r.setSeq seq.seqId seq with seqMap := insert seq.seqId r.seqMap } := by
  obtain ⟨⟨⟩, hnew, h⟩ := seq_eq_ok.mp h
  cases h
  exact ⟨by simpa using hnew, rfl⟩

theorem addSeq_view {μ : Type} {r r' : Replica μ} {seq : Sequence} (h : r.addSeq seq = .ok r')
    (id : SeqId) :
    r'.view id = if id = seq.seqId then (seq, True) else r.view id := by
  obtain ⟨-, rfl⟩ := addSeq_eq_ok h
  split_ifs with hid
  · simp [Replica.view, Replica.setSeq, hid]
  · simp [Replica.view, Replica.setSeq, hid]

/-- What `add_request` does. -/
structure AddView (cfg : EngineConfig) (req : Request) (e e' : BaseLLMEngine β γ) : Prop where
  fresh : req.seqId ∉ e.replica.seqMap
  engine : ∀ id, e'.replica.view id =
    if id = req.seqId then (req.toSequence cfg, True) else e.replica.view id
  workers : ∀ w' ∈ e'.workers, ∃ w ∈ e.workers, w'.cacheEngine = w.cacheEngine ∧
    req.seqId ∉ w.replica.seqMap ∧
    ∀ id, w'.replica.view id =
      if id = req.seqId then (req.toSequence cfg, True) else w.replica.view id
  scheduler : e'.scheduler = e.scheduler.addSeq req.seqId

omit [BlockSpaceManager β] [CacheEngine γ] in
/-- The cache engines stay as they are. -/
theorem AddView.cacheEngines {req : Request} {e e' : BaseLLMEngine β γ}
    (h : AddView cfg req e e') {P : γ → Prop} (hold : ∀ w ∈ e.workers, P w.cacheEngine) :
    ∀ w' ∈ e'.workers, P w'.cacheEngine := by
  intro w' hw'
  obtain ⟨w, hw, heq, -⟩ := h.workers w' hw'
  rw [heq]
  exact hold w hw

omit [BlockSpaceManager β] [CacheEngine γ] in
theorem addRequest_view {e e' : BaseLLMEngine β γ} {req : Request}
    (h : e.addRequest cfg req = .ok e') : AddView cfg req e e' := by
  obtain ⟨r, hengine, h⟩ := seq_eq_ok.mp h
  obtain ⟨workers, hworkers, h⟩ := seq_eq_ok.mp h
  cases h
  refine ⟨(addSeq_eq_ok hengine).1, addSeq_view hengine, fun w' hw' => ?_, rfl⟩
  obtain ⟨w, hw, hadd⟩ := exists_mem_of_mapM_ok hworkers w' hw'
  obtain ⟨r', hreplica, hadd⟩ := seq_eq_ok.mp hadd
  cases hadd
  exact ⟨w, hw, rfl, (addSeq_eq_ok hreplica).1, addSeq_view hreplica⟩

end VAttention.Engine
