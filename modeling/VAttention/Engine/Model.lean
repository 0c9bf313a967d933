import VAttention.Scheduler.Model
import VAttention.Worker.Model

/-!
# The engine

Model of `BaseLLMEngine`: requests are added at any time, and `step` asks the workers for
their free blocks, schedules, lets the workers execute the batch and applies its outcome.
The engine and the scheduler share their sequence objects; every worker has copies.
-/

namespace VAttention.Engine

open VAttention.Core VAttention.Lib VAttention.Scheduler VAttention.Manager VAttention.Worker

/-- The parts of the configuration the engine reads. -/
structure EngineConfig where
  scheduler : SchedulerConfig
  blockSize : Nat
  eosTokenId : Option TokenId
  detokenize : Detokenizer
  /-- `_prepare_inputs` pads the batch unless the model is MLA on the vAttention backend. -/
  padInputs : Bool

/-- `BaseLLMEngine`. -/
structure BaseLLMEngine (β γ : Type) where
  replica : Replica Unit
  scheduler : SchedulerState β
  workers : List (BaseWorker β γ)

/-- The arguments of `add_request`, after defaults. -/
structure Request where
  seqId : SeqId
  prompt : Text
  promptTokenIds : List TokenId
  arrivalTime : Time
  samplingParams : SamplingParams

/-- What a step depends on besides the state: the clock and the tokens the model yields. -/
structure StepInput where
  now : Time
  sampled : SeqId → TokenId

/-- The calls of a client. -/
inductive Event where
  | addRequest (req : Request)
  | step (inp : StepInput)

/-- The object created for a request. -/
def Request.toSequence (cfg : EngineConfig) (req : Request) : Sequence :=
  .new req.seqId req.prompt req.promptTokenIds cfg.blockSize cfg.eosTokenId req.arrivalTime
    req.samplingParams

namespace BaseLLMEngine

variable {β γ : Type}

/-- The engine after initialisation; the scheduler and the workers' sequence managers start
    with equal block managers. -/
def start (blockManager : β) (cacheEngines : List γ) : BaseLLMEngine β γ :=
  let objs : Heap := fun id => .new id [] [] 1 none 0 {}
  { replica := .empty objs ()
    scheduler := {
      waiting := []
      running := []
      blockManager
      numRunningBatches := 0
      whoseTurn := .prefill }
    workers := cacheEngines.map fun cacheEngine =>
      { replica := .empty objs blockManager, cacheEngine } }

variable [BlockSpaceManager β] [CacheEngine γ] (cfg : EngineConfig)

/-- `add_request`. -/
def addRequest (req : Request) (e : BaseLLMEngine β γ) : Except PyError (BaseLLMEngine β γ) := do
  let seq := req.toSequence cfg
  let replica ← e.replica.addSeq seq
  let workers ← e.workers.mapM (BaseWorker.addSeq seq)
  pure { replica, workers, scheduler := e.scheduler.addSeq seq.seqId }

/-- The first part of `step`: take the preemption queue, pass on the number of free blocks
    and schedule. -/
def scheduleStep (inp : StepInput) (e : BaseLLMEngine β γ) :
    Except PyError (BaseLLMEngine β γ × SchedulerOutputs × List SeqId) :=
  match (e.workers.map fun w => CacheEngine.numFreeBlocks w.cacheEngine).min? with
  | none => .error (.valueError "min() arg is an empty sequence")
  | some freeBlocks => do
    let (preemptionQueue, blockManager) :=
      BlockSpaceManager.takePreemptionQueue e.scheduler.blockManager
    let (objs, scheduler, out) ← schedule cfg.scheduler inp.now e.replica.objs
      { e.scheduler with blockManager := BlockSpaceManager.setFreeBlocks blockManager freeBlocks }
    pure ({ e with replica := { e.replica with objs }, scheduler }, out, preemptionQueue)

/-- The rest of `step`, for a batch that is not empty. -/
def executeStep (inp : StepInput) (out : SchedulerOutputs) (preemptionQueue : List SeqId)
    (e : BaseLLMEngine β γ) : Except PyError (BaseLLMEngine β γ) := do
  let replica ← e.replica.onSchedule (engineHooks cfg.detokenize) out
  let workers ← e.workers.mapM
    (BaseWorker.executeModel cfg.padInputs out preemptionQueue inp.sampled)
  let replica ← replica.onStepCompleted (engineHooks cfg.detokenize) out inp.sampled
  pure { replica, workers, scheduler := e.scheduler.onStepCompleted replica.objs }

/-- `step`, with the request outputs it returns. -/
def step (inp : StepInput) (e : BaseLLMEngine β γ) :
    Except PyError (BaseLLMEngine β γ × List RequestOutput) := do
  let (e, out, preemptionQueue) ← e.scheduleStep cfg inp
  if out.isEmpty then pure (e, [])
  else
    let e ← e.executeStep cfg inp out preemptionQueue
    pure (e, e.replica.generateRequestOutputs out)

/-- A call of a client, without its return value. -/
def exec (event : Event) (e : BaseLLMEngine β γ) : Except PyError (BaseLLMEngine β γ) :=
  match event with
  | .addRequest req => e.addRequest cfg req
  | .step inp => do
    let (e, _) ← e.step cfg inp
    pure e

/-- A sequence of calls. -/
def run (events : List Event) (e : BaseLLMEngine β γ) : Except PyError (BaseLLMEngine β γ) :=
  events.foldlM (fun e event => e.exec cfg event) e

end BaseLLMEngine

end VAttention.Engine
