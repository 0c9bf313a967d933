import Mathlib.Data.List.Sort
import VAttention.Core.BlockManager
import VAttention.Lib.Loop

/-!
# The schedulers

Model of `core/scheduler` and `core/policy.py`: the base scheduler and its five policies
(vLLM, Orca, FasterTransformer, Sarathi, simple chunking).

## How the loops are written

The loops of `_schedule` take sequences from the front of a queue, so each is a step
function on one flat record, `LoopState`, run by `iterate`:

- `decodeStep`: the decode loop with its preemption loop.  The source takes a sequence out
  of `self.running` and then evicts from the back until it fits; here it stays at the front
  of `pending` until it is scheduled or is itself evicted.
- `sarathiPrefillStep`, `simplePrefillStep`, `orcaStep`: the other loops over `running`.
- `admissionStep`: the loop over `waiting`, with the policy's own limits as a parameter.

Scheduler and engine share the sequence objects, so the loops work on the heap of objects
and the lists hold sequence ids.
-/

namespace VAttention.Scheduler

open VAttention.Core VAttention.Lib

/-! ## Configuration and state -/

/-- Chunk sizes of the Sarathi scheduler; the dynamic schedule is the precomputed table
    `_chunk_sizes` with `_tokens_per_stage`.  The configuration accepts any fixed size, a negative
    one included. -/
inductive ChunkSchedule where
  | fixed (chunkSize : Int)
  | dynamic (chunkSizes : List Nat) (tokensPerStage : Nat)
  deriving DecidableEq, Repr

/-- The scheduler type with the parameters of its own configuration class. -/
inductive Policy where
  | vllm (maxNumBatchedTokens : Nat)
  | orca
  | fasterTransformer
  | sarathi (chunks : ChunkSchedule)
  | simpleChunking (chunkSize : Nat)
  deriving DecidableEq, Repr

/-- `BaseSchedulerConfig`, with the assertion of `VLLMSchedulerConfig`. -/
structure SchedulerConfig where
  policy : Policy
  maxNumSeqs : Nat
  maxModelLen : Nat
  numPipelineStages : Nat
  vllm_limit : ∀ n, policy = .vllm n → maxModelLen ≤ n

/-- `Turn` of the simple chunking scheduler. -/
inductive Turn where
  | prefill
  | decode
  deriving DecidableEq, Repr

/-- The attributes of a scheduler. -/
structure SchedulerState (β : Type) where
  waiting : List SeqId
  running : List SeqId
  blockManager : β
  numRunningBatches : Int
  whoseTurn : Turn

/-- The attributes and local variables that the loops of `_schedule` work on.  `pending` is
    the part of `self.running` a loop still has to visit, `running` the local list that
    replaces it. -/
structure LoopState (β : Type) where
  objs : Heap
  blockManager : β
  waiting : List SeqId
  pending : List SeqId
  running : List SeqId
  runningPrefills : List SeqId
  ignored : List SeqId
  preempted : List SeqId
  scheduled : List SequenceScheduleMetadata
  numBatchedTokens : Int
  batchContainsPrefill : Bool

/-- `sort_by_priority` with the FCFS policy: stable, oldest first. -/
def sortByPriority (now : Time) (objs : Heap) (ids : List SeqId) : List SeqId :=
  ids.insertionSort fun a b => now - (objs b).arrivalTime ≤ now - (objs a).arrivalTime

variable {β : Type} [BlockSpaceManager β]

/-! ## Loop bodies -/

/-- `_preempt`. -/
def preempt (id : SeqId) (σ : LoopState β) : Except PyError (LoopState β) := do
  assertThat (σ.objs id).isExecuting (.assertionError "seq.is_executing()")
  let blockManager := BlockSpaceManager.free σ.blockManager id (σ.objs id)
  pure { σ with
    blockManager := BlockSpaceManager.enqueuePreempted blockManager id
    waiting := id :: σ.waiting
    preempted := σ.preempted ++ [id] }

/-- What a decode loop does with a paused sequence whose prompt is not processed yet: the
    vLLM loop asserts that there is none, Sarathi's collects them in `running_prefills`, and
    simple chunking's passes over them. -/
inductive OnUnfinishedPrompt where
  | assertNone
  | setAside
  | keep
  deriving DecidableEq

/-- One turn of the decode loop on the sequence at the front of `pending`.  The assertion of
    `_append_slot` holds of a paused sequence. -/
def decodeStep (policy : OnUnfinishedPrompt) (σ : LoopState β) :
    Except PyError (Option (LoopState β)) :=
  match σ.pending with
  | [] => .ok none
  | id :: rest =>
    let seq := σ.objs id
    if !seq.isPaused then
      .ok (some { σ with pending := rest, running := σ.running ++ [id] })
    else if !seq.promptProcessingFinished then
      match policy with
      | .assertNone => .error (.assertionError "seq.prompt_processing_finished")
      | .setAside =>
        .ok (some { σ with pending := rest, runningPrefills := σ.runningPrefills ++ [id] })
      | .keep => .ok (some { σ with pending := rest, running := σ.running ++ [id] })
    else if BlockSpaceManager.canAppendSlot σ.blockManager seq then do
      let blockManager ← BlockSpaceManager.appendSlot σ.blockManager id seq
      pure (some { σ with
        blockManager
        pending := rest
        running := σ.running ++ [id]
        scheduled := σ.scheduled ++ [⟨id, seq.defaultChunkLen⟩]
        numBatchedTokens := σ.numBatchedTokens + 1 })
    else do
      -- the victim is the last sequence of the queue, or this one if it is alone
      let σ' ← preempt (rest.getLastD id) σ
      pure (some { σ' with pending := (id :: rest).dropLast })

/-- Put the sequence at the front of `pending` into the batch with a prompt chunk. -/
def schedulePrefill (id : SeqId) (rest : List SeqId) (chunkLen : Int) (σ : LoopState β) :
    LoopState β :=
  { σ with
    pending := rest
    running := σ.running ++ [id]
    scheduled := σ.scheduled ++ [⟨id, chunkLen⟩]
    numBatchedTokens := σ.numBatchedTokens + chunkLen
    batchContainsPrefill := true }

/-- The chunk size for the stage a sequence is in. -/
def ChunkSchedule.chunkSize (chunks : ChunkSchedule) (seq : Sequence) : Except PyError Int :=
  match chunks with
  | .fixed chunkSize => .ok chunkSize
  | .dynamic chunkSizes tokensPerStage =>
    match chunkSizes[seq.promptTokensProcessed / tokensPerStage]? with
    | some chunkSize => .ok chunkSize
    | none => .error (.assertionError "request_stage_idx < len(self._chunk_sizes)")

/-- `seq.get_prompt_len() - seq.get_num_prompt_tokens_processed()`. -/
def remainingPrompt (seq : Sequence) : Int := seq.getPromptLen - seq.promptTokensProcessed

/-- `SarathiScheduler._get_seq_next_num_prefill_tokens`, `enable_rolling_prefills` being
    `False`.  The difference with the tokens already batched may be negative. -/
def sarathiNextNumPrefillTokens (chunks : ChunkSchedule) (σ : LoopState β) (seq : Sequence) :
    Except PyError Int := do
  assertThat (!seq.isFinished) (.assertionError "not seq.is_finished()")
  let chunkSize ← chunks.chunkSize seq
  if σ.batchContainsPrefill then pure 0
  else pure (min (remainingPrompt seq) (chunkSize - σ.numBatchedTokens))

/-- One turn of Sarathi's loop over `running_prefills`. -/
def sarathiPrefillStep (chunks : ChunkSchedule) (σ : LoopState β) :
    Except PyError (Option (LoopState β)) :=
  match σ.pending with
  | [] => .ok none
  | id :: rest => do
    let seq := σ.objs id
    assertThat (!seq.promptProcessingFinished)
      (.assertionError "not seq.prompt_processing_finished")
    let next ← sarathiNextNumPrefillTokens chunks σ seq
    if next = 0 then pure (some { σ with pending := rest, running := σ.running ++ [id] })
    else pure (some (schedulePrefill id rest next σ))

/-- `SimpleChunkingScheduler._get_seq_next_num_prefill_tokens`. -/
def simpleNextNumPrefillTokens (chunkSize : Nat) (σ : LoopState β) (seq : Sequence) :
    Except PyError Int := do
  assertThat (!seq.isFinished) (.assertionError "not seq.is_finished()")
  pure (min (remainingPrompt seq) (chunkSize - σ.numBatchedTokens))

/-- One turn of simple chunking's loop over the running sequences in a prefill turn. -/
def simplePrefillStep (chunkSize : Nat) (σ : LoopState β) :
    Except PyError (Option (LoopState β)) :=
  match σ.pending with
  | [] => .ok none
  | id :: rest =>
    let seq := σ.objs id
    let keep : LoopState β := { σ with pending := rest, running := σ.running ++ [id] }
    if !seq.isPaused then .ok (some keep)
    else if seq.promptProcessingFinished then .ok (some keep)
    else do
      let next ← simpleNextNumPrefillTokens chunkSize σ seq
      if next = 0 then pure (some keep) else pure (some (schedulePrefill id rest next σ))

/-- One turn of the loop of Orca and FasterTransformer over `self.running`, which schedules
    every paused sequence and asks the block manager nothing. -/
def orcaStep (σ : LoopState β) : Except PyError (Option (LoopState β)) :=
  match σ.pending with
  | [] => .ok none
  | id :: rest =>
    let seq := σ.objs id
    if !seq.isPaused then
      .ok (some { σ with pending := rest, running := σ.running ++ [id] })
    else do
      assertThat seq.promptProcessingFinished (.assertionError "seq.prompt_processing_finished")
      pure (some { σ with
        pending := rest
        running := σ.running ++ [id]
        scheduled := σ.scheduled ++ [⟨id, seq.defaultChunkLen⟩] })

/-- How an admitted sequence enters the batch: its chunk, and the tokens it counts for. -/
structure Admission where
  chunkLen : Int
  numTokens : Int

/-- One turn of the loop over `self.waiting`.  `gate` is what the policy still checks once
    the block manager can allocate the sequence. -/
def admissionStep (cfg : SchedulerConfig) (now : Time)
    (gate : LoopState β → Sequence → Except PyError (Option Admission)) (σ : LoopState β) :
    Except PyError (Option (LoopState β)) :=
  match σ.waiting with
  | [] => .ok none
  | id :: rest =>
    let seq := σ.objs id
    if now < seq.arrivalTime then .ok none
    else if cfg.maxModelLen < seq.getLen then do
      -- `_check_request_prompt_length`
      let seq ← seq.setStatus .finishedIgnored
      pure (some { σ with
        objs := Function.update σ.objs id seq
        waiting := rest
        ignored := σ.ignored ++ [id] })
    else if !BlockSpaceManager.canAllocate σ.blockManager seq then .ok none
    else do
      match ← gate σ seq with
      | none => pure none
      | some admission =>
        let blockManager ← BlockSpaceManager.allocate σ.blockManager id seq
        pure (some { σ with
          blockManager
          waiting := rest
          running := σ.running ++ [id]
          scheduled := σ.scheduled ++ [⟨id, admission.chunkLen⟩]
          numBatchedTokens := σ.numBatchedTokens + admission.numTokens
          batchContainsPrefill := true })

/-- Limits of the vLLM scheduler on a prompt that fits in memory. -/
def vllmGate (cfg : SchedulerConfig) (maxNumBatchedTokens : Nat) (σ : LoopState β)
    (seq : Sequence) : Except PyError (Option Admission) :=
  if (maxNumBatchedTokens : Int) < σ.numBatchedTokens + seq.getLen then .ok none
  else if cfg.maxNumSeqs < σ.running.length + 1 then .ok none
  else .ok (some ⟨seq.defaultChunkLen, seq.getLen⟩)

/-- Limits of Orca and FasterTransformer. -/
def orcaGate (cfg : SchedulerConfig) (σ : LoopState β) (seq : Sequence) :
    Except PyError (Option Admission) :=
  if cfg.maxNumSeqs < σ.running.length + 1 then .ok none
  else .ok (some ⟨seq.defaultChunkLen, 0⟩)

/-- Limits of a chunked scheduler: the batch size, then a non-zero chunk. -/
def chunkGate (cfg : SchedulerConfig)
    (nextNumPrefillTokens : LoopState β → Sequence → Except PyError Int)
    (σ : LoopState β) (seq : Sequence) : Except PyError (Option Admission) :=
  if cfg.maxNumSeqs ≤ σ.running.length then .ok none
  else do
    let next ← nextNumPrefillTokens σ seq
    if next = 0 then pure none else pure (some ⟨next, next⟩)

/-! ## The policies -/

/-- Move `self.running`, oldest first, to the queue that the next loop visits. -/
def LoopState.requeueRunning (now : Time) (σ : LoopState β) : LoopState β :=
  { σ with pending := sortByPriority now σ.objs σ.running, running := [] }

/-- Run a loop over `pending`; every turn shortens it by one. -/
def visitPending (step : LoopState β → Except PyError (Option (LoopState β))) (σ : LoopState β) :
    Except PyError (LoopState β) :=
  iterate step σ.pending.length σ

/-- Run the loop over `waiting`; every turn that goes on takes one sequence from it. -/
def admitWaiting (cfg : SchedulerConfig) (now : Time)
    (gate : LoopState β → Sequence → Except PyError (Option Admission)) (σ : LoopState β) :
    Except PyError (LoopState β) :=
  iterate (admissionStep cfg now gate) σ.waiting.length σ

/-- `VLLMScheduler._schedule`: prefills first, decodes only if nothing was admitted. -/
def vllmSchedule (cfg : SchedulerConfig) (maxNumBatchedTokens : Nat) (now : Time)
    (σ : LoopState β) : Except PyError (LoopState β) := do
  let σ := { σ with blockManager := BlockSpaceManager.clearPromisedBlocks σ.blockManager }
  let σ ← admitWaiting cfg now (vllmGate cfg maxNumBatchedTokens) σ
  if !σ.scheduled.isEmpty || !σ.ignored.isEmpty then pure σ
  else visitPending (decodeStep .assertNone) (σ.requeueRunning now)

/-- `SarathiScheduler._schedule`: decodes, then running prefills, then new ones. -/
def sarathiSchedule (cfg : SchedulerConfig) (chunks : ChunkSchedule) (now : Time)
    (σ : LoopState β) : Except PyError (LoopState β) := do
  let σ := { σ with blockManager := BlockSpaceManager.clearPromisedBlocks σ.blockManager }
  let σ ← visitPending (decodeStep .setAside) (σ.requeueRunning now)
  let σ ← visitPending (sarathiPrefillStep chunks)
    { σ with pending := σ.runningPrefills, runningPrefills := [] }
  admitWaiting cfg now (chunkGate cfg (sarathiNextNumPrefillTokens chunks)) σ

/-- The decode phase of simple chunking. -/
def simpleDecodePhase (σ : LoopState β) : Except PyError (LoopState β × Turn) := do
  let σ ← visitPending (decodeStep .keep) σ
  pure (σ, .prefill)

/-- `SimpleChunkingScheduler._schedule`. -/
def simpleSchedule (cfg : SchedulerConfig) (chunkSize : Nat) (now : Time) (turn : Turn)
    (σ : LoopState β) : Except PyError (LoopState β × Turn) := do
  let σ := σ.requeueRunning now
  match turn with
  | .decode => simpleDecodePhase σ
  | .prefill =>
    let σ ← visitPending (simplePrefillStep chunkSize) σ
    if !σ.scheduled.isEmpty then pure (σ, .decode)
    else
      let σ ← admitWaiting cfg now (chunkGate cfg (simpleNextNumPrefillTokens chunkSize)) σ
      if !σ.scheduled.isEmpty || !σ.ignored.isEmpty then pure (σ, .decode)
      else simpleDecodePhase { σ with pending := σ.running, running := [] }

/-- `OrcaScheduler._schedule`. -/
def orcaSchedule (cfg : SchedulerConfig) (now : Time) (σ : LoopState β) :
    Except PyError (LoopState β) := do
  let σ ← visitPending orcaStep { σ with pending := σ.running, running := [] }
  admitWaiting cfg now (orcaGate cfg) σ

/-- `FasterTransformerScheduler._schedule`: a batch runs to its end before the next one. -/
def fasterTransformerSchedule (cfg : SchedulerConfig) (now : Time) (σ : LoopState β) :
    Except PyError (LoopState β) := do
  let σ ← visitPending orcaStep { σ with pending := σ.running, running := [] }
  if !σ.scheduled.isEmpty then pure σ else admitWaiting cfg now (orcaGate cfg) σ

/-- `_schedule` of the configured policy; only simple chunking has a turn to keep. -/
def runPolicy (cfg : SchedulerConfig) (now : Time) (turn : Turn) (σ : LoopState β) :
    Except PyError (LoopState β × Turn) :=
  match cfg.policy with
  | .vllm maxNumBatchedTokens => do
    let σ ← vllmSchedule cfg maxNumBatchedTokens now σ
    pure (σ, turn)
  | .orca => do
    let σ ← orcaSchedule cfg now σ
    pure (σ, turn)
  | .fasterTransformer => do
    let σ ← fasterTransformerSchedule cfg now σ
    pure (σ, turn)
  | .sarathi chunks => do
    let σ ← sarathiSchedule cfg chunks now σ
    pure (σ, turn)
  | .simpleChunking chunkSize => simpleSchedule cfg chunkSize now turn σ

/-! ## The base scheduler -/

/-- The loop variables at the start of `_schedule`. -/
def SchedulerState.start (objs : Heap) (s : SchedulerState β) : LoopState β where
  objs := objs
  blockManager := s.blockManager
  waiting := s.waiting
  pending := []
  running := s.running
  runningPrefills := []
  ignored := []
  preempted := []
  scheduled := []
  numBatchedTokens := 0
  batchContainsPrefill := false

/-- The `SchedulerOutputs` built from the loop variables at the end of `_schedule`. -/
def LoopState.outputs (σ : LoopState β) : SchedulerOutputs where
  ignoredSeqIds := σ.ignored
  preemptedSeqIds := σ.preempted
  scheduledSeqMetadataList := σ.scheduled

/-- `BaseScheduler.schedule`. -/
def schedule (cfg : SchedulerConfig) (now : Time) (objs : Heap) (s : SchedulerState β) :
    Except PyError (Heap × SchedulerState β × SchedulerOutputs) :=
  if (cfg.numPipelineStages : Int) ≤ s.numRunningBatches then .ok (objs, s, ⟨[], [], []⟩)
  else do
    let (σ, turn) ← runPolicy cfg now s.whoseTurn (s.start objs)
    pure (σ.objs,
      { waiting := σ.waiting
        running := σ.running
        blockManager := σ.blockManager
        numRunningBatches := s.numRunningBatches + if σ.outputs.isEmpty then 0 else 1
        whoseTurn := turn },
      σ.outputs)

/-- `BaseScheduler.add_seq`. -/
def SchedulerState.addSeq (id : SeqId) (s : SchedulerState β) : SchedulerState β :=
  { s with waiting := s.waiting ++ [id] }

/-- `BaseScheduler.on_step_completed`: free, then drop, the finished sequences. -/
def SchedulerState.onStepCompleted (objs : Heap) (s : SchedulerState β) : SchedulerState β :=
  { s with
    blockManager := (s.running.filter fun id => (objs id).isFinished).foldl
      (fun bm id => BlockSpaceManager.free bm id (objs id)) s.blockManager
    running := s.running.filter fun id => !(objs id).isFinished
    numRunningBatches := s.numRunningBatches - 1 }

end VAttention.Scheduler
