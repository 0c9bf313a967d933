import VAttention.Engine.Model

/-!
# The pipeline-parallel engine

Model of `PipelineParallelLLMEngine` with its scheduler, its sequence manager and the sequence
managers of its workers.  Up to `num_pipeline_stages` batches are under way at once: a round is
scheduled while older batches are executed, every stage begins the batches in its own time, and
the batches complete in the order in which they were sent.

A schedule round and a completion are one event each, and so is a batch that a stage begins.
What the sequence managers do not take part in is left out: the forward pass between the stages
and the loop that watches the first stage.  An event that would have to wait changes nothing.
-/

namespace VAttention.Pipeline

open VAttention.Core VAttention.Lib VAttention.Scheduler VAttention.Manager VAttention.Engine

/-! ## The state -/

/-- A `PipelineParallelWorker`: its sequence manager, and the batches it has not begun. -/
structure StageWorker (β : Type) where
  replica : Replica β
  executionQueue : List SchedulerOutputs

/-- `PipelineParallelLLMEngine`. -/
structure PipelineEngine (β : Type) where
  replica : Replica Unit
  scheduler : SchedulerState β
  workers : List (StageWorker β)
  /-- The rounds that `_output_loop` still has to complete, oldest first. -/
  schedulerOutputQueue : List SchedulerOutputs
  /-- The batches whose sampler outputs have not been taken from the last stage. -/
  sent : List SchedulerOutputs

/-- What happens to the engine, in any order. -/
inductive PipelineEvent where
  | addRequest (req : Request)
  /-- One turn of `_schedule_loop`. -/
  | schedule (now : Time)
  /-- A worker, given by its place in the list, begins its next batch; its cache engine reports
      the number of free blocks. -/
  | execute (worker freeBlocks : Nat)
  /-- One turn of `_output_loop`, with the tokens the last stage has sampled. -/
  | complete (sampled : SeqId → TokenId)

/-! ## Workers -/

namespace StageWorker

variable {β : Type}

/-- `add_seq`. -/
def addSeq (seq : Sequence) (w : StageWorker β) : Except PyError (StageWorker β) := do
  let replica ← w.replica.addSeq seq
  pure { w with replica }

/-- `enqueue`. -/
def enqueue (out : SchedulerOutputs) (w : StageWorker β) : StageWorker β :=
  { w with executionQueue := w.executionQueue ++ [out] }

variable [BlockSpaceManager β]

/-- One turn of `_execution_loop`, as far as `on_schedule`; `on_step_completed` of a pipeline
    worker does nothing. -/
def execute (freeBlocks : Nat) (w : StageWorker β) : Except PyError (StageWorker β) :=
  match w.executionQueue with
  | [] => .ok w
  | out :: executionQueue => do
    let replica ← Replica.onSchedule (workerHooks β) out
      { w.replica with ext := BlockSpaceManager.setFreeBlocks w.replica.ext freeBlocks }
    pure { replica, executionQueue }

/-- `on_sampling_completed`. -/
def onSamplingCompleted (out : SchedulerOutputs) (sampled : SeqId → TokenId) (w : StageWorker β) :
    Except PyError (StageWorker β) := do
  let replica ← w.replica.onStepCompleted (workerHooks β) out sampled
  pure { w with replica }

/-- A worker that begins a batch takes it from its queue. -/
theorem execute_eq_ok {w w' : StageWorker β} {freeBlocks : Nat}
    (h : w.execute freeBlocks = .ok w') :
    w' = w ∨ ∃ out ext, w.executionQueue = out :: w'.executionQueue ∧
      Replica.onSchedule (workerHooks β) out { w.replica with ext } = .ok w'.replica := by
  unfold execute at h
  split at h
  · cases h
    exact .inl rfl
  · rename_i out rest hqueue
    obtain ⟨replica, hreplica, h⟩ := seq_eq_ok.mp h
    cases h
    exact .inr ⟨out, _, hqueue, hreplica⟩

end StageWorker

/-! ## The engine -/

/-- The entries of a round that `zip` pairs with the sampler outputs of a batch, which has one
    for each of its entries. -/
def answered (out batch : SchedulerOutputs) : SchedulerOutputs :=
  { out with
    scheduledSeqMetadataList :=
      out.scheduledSeqMetadataList.take batch.scheduledSeqMetadataList.length }

namespace PipelineEngine

variable {β : Type}

/-- The engine after initialisation. -/
def start (blockManager : β) (numWorkers : Nat) : PipelineEngine β :=
  let objs : Heap := fun id => .new id [] [] 1 none 0 {}
  { replica := .empty objs ()
    scheduler := {
      waiting := []
      running := []
      blockManager
      numRunningBatches := 0
      whoseTurn := .prefill }
    workers := List.replicate numWorkers ⟨.empty objs blockManager, []⟩
    schedulerOutputQueue := []
    sent := [] }

variable [BlockSpaceManager β] (cfg : EngineConfig)

/-- `add_request`. -/
def addRequest (req : Request) (e : PipelineEngine β) : Except PyError (PipelineEngine β) := do
  let seq := req.toSequence cfg
  let replica ← e.replica.addSeq seq
  let workers ← e.workers.mapM (StageWorker.addSeq seq)
  pure { e with replica, workers, scheduler := e.scheduler.addSeq seq.seqId }

/-- One turn of `_schedule_loop`.  A round without a batch is published for `_output_loop`, but
    does not reach the workers. -/
def scheduleRound (now : Time) (e : PipelineEngine β) : Except PyError (PipelineEngine β) := do
  let (objs, scheduler, out) ← schedule cfg.scheduler now e.replica.objs e.scheduler
  if out.hasNoOutput then pure { e with replica := { e.replica with objs }, scheduler }
  else
    let replica ←
      Replica.onSchedule (engineHooks cfg.detokenize) out { e.replica with objs }
    if out.isEmpty then
      pure { e with
        replica, scheduler, schedulerOutputQueue := e.schedulerOutputQueue ++ [out] }
    else
      pure {
        replica
        scheduler
        workers := e.workers.map (StageWorker.enqueue out)
        schedulerOutputQueue := e.schedulerOutputQueue ++ [out]
        sent := e.sent ++ [out] }

/-- The worker at the given place begins its next batch. -/
def executeBatch (worker freeBlocks : Nat) (e : PipelineEngine β) :
    Except PyError (PipelineEngine β) :=
  match e.workers[worker]? with
  | none => .ok e
  | some w => do
    let w ← w.execute freeBlocks
    pure { e with workers := e.workers.set worker w }

/-- What `_output_loop` does with a round and the sampler outputs of a batch; `rounds` and `sent`
    are what is left of the two queues. -/
def finishRound (sampled : SeqId → TokenId) (out batch : SchedulerOutputs)
    (rounds sent : List SchedulerOutputs) (e : PipelineEngine β) :
    Except PyError (PipelineEngine β) := do
  let workers ← e.workers.mapM (StageWorker.onSamplingCompleted (answered out batch) sampled)
  let replica ← e.replica.onStepCompleted (engineHooks cfg.detokenize) (answered out batch) sampled
  pure {
    replica
    scheduler := e.scheduler.onStepCompleted replica.objs
    workers
    schedulerOutputQueue := rounds
    sent }

/-- One turn of `_output_loop`: the oldest round meets the oldest sampler outputs, which exist
    once every stage has begun their batch. -/
def completeRound (sampled : SeqId → TokenId) (e : PipelineEngine β) :
    Except PyError (PipelineEngine β) :=
  match e.schedulerOutputQueue, e.sent with
  | out :: rounds, batch :: sent =>
    if e.workers.all fun w => w.executionQueue.length ≤ sent.length then
      e.finishRound cfg sampled out batch rounds sent
    else .ok e
  | _, _ => .ok e

/-- One event. -/
def exec (event : PipelineEvent) (e : PipelineEngine β) : Except PyError (PipelineEngine β) :=
  match event with
  | .addRequest req => e.addRequest cfg req
  | .schedule now => e.scheduleRound cfg now
  | .execute worker freeBlocks => e.executeBatch worker freeBlocks
  | .complete sampled => e.completeRound cfg sampled

/-- A sequence of events. -/
def run (events : List PipelineEvent) (e : PipelineEngine β) : Except PyError (PipelineEngine β) :=
  events.foldlM (fun e event => e.exec cfg event) e

variable {cfg} {e e' : PipelineEngine β} {now : Time}

/-! ## Taking an event apart -/

/-- A round that succeeds: what its outputs do to the engine and to the workers. -/
structure RoundParts (cfg : EngineConfig) (now : Time) (e e' : PipelineEngine β) (objs : Heap)
    (out : SchedulerOutputs) : Prop where
  schedule : schedule cfg.scheduler now e.replica.objs e.scheduler = .ok (objs, e'.scheduler, out)
  replica : out.hasNoOutput = true ∧ e'.replica = { e.replica with objs } ∨
    Replica.onSchedule (engineHooks cfg.detokenize) out { e.replica with objs } = .ok e'.replica
  published : e'.schedulerOutputQueue =
    e.schedulerOutputQueue ++ if out.hasNoOutput then [] else [out]
  sent : e'.sent = e.sent ++ if out.isEmpty then [] else [out]
  workers : e'.workers = if out.isEmpty then e.workers else e.workers.map (StageWorker.enqueue out)

/-- A round is published at the end of the queue, or not at all. -/
theorem RoundParts.mem_published {now : Time} {objs : Heap} {out older : SchedulerOutputs}
    (h : RoundParts cfg now e e' objs out) (holder : older ∈ e'.schedulerOutputQueue) :
    older ∈ e.schedulerOutputQueue ∨ older = out := by
  rw [h.published, List.mem_append] at holder
  refine holder.imp_right fun hnew => ?_
  split_ifs at hnew
  · cases hnew
  · exact List.mem_singleton.mp hnew

/-- What holds between published rounds, and between each of them and the new one. -/
theorem RoundParts.pairwise_published {now : Time} {objs : Heap} {out : SchedulerOutputs}
    (h : RoundParts cfg now e e' objs out) {P : SchedulerOutputs → SchedulerOutputs → Prop}
    (hold : e.schedulerOutputQueue.Pairwise P)
    (hnew : ∀ older ∈ e.schedulerOutputQueue, P older out) :
    e'.schedulerOutputQueue.Pairwise P := by
  rw [h.published, List.pairwise_append]
  refine ⟨hold, by split_ifs <;> simp, fun older holder newer hnewer => ?_⟩
  split_ifs at hnewer
  · cases hnewer
  · obtain rfl := List.mem_singleton.mp hnewer
    exact hnew older holder

theorem scheduleRound_parts (h : e.scheduleRound cfg now = .ok e') :
    ∃ objs out, RoundParts cfg now e e' objs out := by
  obtain ⟨⟨objs, scheduler, out⟩, hschedule, h⟩ := seq_eq_ok.mp h
  refine ⟨objs, out, ?_⟩
  dsimp only at h
  split_ifs at h with hnone hempty
  · cases h
    have hempty : out.isEmpty = true := by
      simp only [SchedulerOutputs.hasNoOutput, Bool.and_eq_true] at hnone
      exact hnone.1.1
    exact ⟨hschedule, .inl ⟨hnone, rfl⟩, by simp [hnone], by simp [hempty], by simp [hempty]⟩
  · obtain ⟨replica, hreplica, h⟩ := seq_eq_ok.mp h
    cases h
    exact ⟨hschedule, .inr hreplica, by simp [hnone], by simp [hempty], by simp [hempty]⟩
  · obtain ⟨replica, hreplica, h⟩ := seq_eq_ok.mp h
    cases h
    exact ⟨hschedule, .inr hreplica, by simp [hnone], by simp [hempty], by simp [hempty]⟩

/-- The oldest round, the oldest batch that was sent and what is behind them, where every worker
    has begun that batch. -/
structure Completing (e : PipelineEngine β) (out batch : SchedulerOutputs)
    (rounds batches : List SchedulerOutputs) : Prop where
  published : e.schedulerOutputQueue = out :: rounds
  sent : e.sent = batch :: batches
  begun : ∀ w ∈ e.workers, w.executionQueue.length ≤ batches.length

/-- A completion has to wait, or finishes the oldest round. -/
theorem completeRound_cases (cfg : EngineConfig) (sampled : SeqId → TokenId)
    (e : PipelineEngine β) :
    e.completeRound cfg sampled = .ok e ∨
      ∃ out batch rounds batches, Completing e out batch rounds batches ∧
        e.completeRound cfg sampled = e.finishRound cfg sampled out batch rounds batches := by
  unfold completeRound
  split
  · rename_i out rounds batch batches hpublished hsent
    split_ifs with hbegun
    · exact .inr ⟨out, batch, rounds, batches, ⟨hpublished, hsent, by simpa using hbegun⟩, rfl⟩
    · exact .inl rfl
  · exact .inl rfl

/-- The parts of a completion that succeeds. -/
structure CompletionParts (cfg : EngineConfig) (sampled : SeqId → TokenId)
    (out batch : SchedulerOutputs) (e e' : PipelineEngine β) : Prop where
  workers : e.workers.mapM (StageWorker.onSamplingCompleted (answered out batch) sampled) =
    .ok e'.workers
  replica : e.replica.onStepCompleted (engineHooks cfg.detokenize) (answered out batch) sampled =
    .ok e'.replica
  scheduler : e'.scheduler = e.scheduler.onStepCompleted e'.replica.objs

theorem finishRound_parts {sampled : SeqId → TokenId} {out batch : SchedulerOutputs}
    {rounds batches : List SchedulerOutputs}
    (h : e.finishRound cfg sampled out batch rounds batches = .ok e') :
    CompletionParts cfg sampled out batch e e' ∧ e'.schedulerOutputQueue = rounds ∧
      e'.sent = batches := by
  obtain ⟨workers, hworkers, h⟩ := seq_eq_ok.mp h
  obtain ⟨replica, hreplica, h⟩ := seq_eq_ok.mp h
  cases h
  exact ⟨⟨hworkers, hreplica, rfl⟩, rfl, rfl⟩

end PipelineEngine

end VAttention.Pipeline
