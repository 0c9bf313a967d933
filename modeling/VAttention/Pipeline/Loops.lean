import Mathlib.Logic.Function.Basic
import Mathlib.Tactic.SplitIfs
import VAttention.Core.Sequence
import VAttention.Lib.Runs

/-!
# The loops of the pipeline-parallel engine

Three kinds of threads talk through FIFO queues.  The schedule loop asks the scheduler for a
round, puts the round on `scheduler_output_queue` and its batch on the execution queue of every
stage.  The execution loop of a stage takes batches from its queue, receives the hidden states
of the stage before it, and sends its own to the next stage; the last stage puts sampler outputs
on its output queue.  The output loop takes one round and one sampler output and combines them.

What a scheduler puts into a round does not matter here, so the result of `_schedule` comes with
the event.  A sampler output is represented by the rounds it was computed from, one per stage.
-/

namespace VAttention.Pipeline

open VAttention.Core VAttention.Lib

/-- The parallel configuration, as `_validate_parallel_config` accepts it. -/
structure PipelineConfig where
  numStages : Nat
  valid : 1 < numStages

/-- The stage whose output queue the output loop reads. -/
def PipelineConfig.lastStage (cfg : PipelineConfig) : Nat := cfg.numStages - 1

/-- One result of `schedule`, under its iteration id. -/
structure Round where
  id : Nat
  out : SchedulerOutputs
  deriving DecidableEq

/-- Hidden states or sampler outputs: what every stage executed to compute them. -/
abbrev Trace := List Round

/-- The queues that the worker of one stage reads or fills (tensor-parallel rank zero). -/
structure Stage where
  executionQueue : List Round := []
  /-- Hidden states sent to the next stage and not received yet. -/
  hiddenStates : List Trace := []
  outputQueue : List Trace := []
  deriving DecidableEq

/-- Where the schedule loop stands. -/
inductive ScheduleLoop where
  /-- At the top of the loop. -/
  | idle
  /-- `schedule` has returned a round that has output. -/
  | scheduled (r : Round)
  /-- The round is published, and the stages before the given one have got its batch. -/
  | enqueueing (r : Round) (stage : Nat)
  deriving DecidableEq

/-- Where the output loop stands. -/
inductive OutputLoop where
  | idle
  /-- A round has been taken, and the loop waits in `get_output`. -/
  | waiting (r : Round)
  /-- The round and the sampler outputs have been combined. -/
  | combined (r : Round) (outputs : Trace)
  deriving DecidableEq

/-- The state of all loops and queues.  `enqueued` and `completed` are history: the batches
    put on the queues of all stages, and the rounds passed to `on_step_completed`. -/
structure LoopState where
  iterationId : Nat := 0
  numRunningBatches : Int := 0
  scheduleLoop : ScheduleLoop := .idle
  schedulerOutputQueue : List Round := []
  stages : Nat → Stage := fun _ => {}
  outputLoop : OutputLoop := .idle
  enqueued : List Round := []
  completed : List Round := []

/-- One step of one of the loops. -/
inductive LoopEvent where
  /-- The schedule loop calls `schedule`; `_schedule` would return the given outputs. -/
  | schedule (out : SchedulerOutputs)
  /-- It puts the round on `scheduler_output_queue`. -/
  | publish
  /-- It puts the batch on the execution queue of the next stage. -/
  | enqueue
  /-- The execution loop of a stage runs its next batch. -/
  | execute (stage : Nat)
  /-- The output loop takes a round. -/
  | getStageOutputs
  /-- `get_output` of the last stage returns. -/
  | getOutput
  /-- The output loop calls `_on_step_completed`. -/
  | complete
  /-- The microbatch watch loop takes an output of the first stage. -/
  | watch
  deriving DecidableEq

namespace LoopState

variable (cfg : PipelineConfig) (p : LoopState)

def setStage (k : Nat) (s : Stage) : LoopState := { p with stages := Function.update p.stages k s }

/-- `schedule`: nothing is scheduled while there are as many batches as stages. -/
def schedule (out : SchedulerOutputs) : Round × LoopState :=
  let next := { p with iterationId := p.iterationId + 1 }
  if (cfg.numStages : Int) ≤ p.numRunningBatches then (⟨p.iterationId, ⟨[], [], []⟩⟩, next)
  else if out.isEmpty then (⟨p.iterationId, out⟩, next)
  else (⟨p.iterationId, out⟩, { next with numRunningBatches := p.numRunningBatches + 1 })

/-- The hidden states a stage receives; the first stage computes them itself.  `none` if the
    stage before has not sent any. -/
def receive (stage : Nat) : Option (Trace × LoopState) :=
  match stage with
  | 0 => some ([], p)
  | k + 1 =>
    match (p.stages k).hiddenStates with
    | [] => none
    | t :: rest => some (t, p.setStage k { p.stages k with hiddenStates := rest })

/-- What a stage does with the outputs of its model: all but the last send hidden states, and
    only the first and the last fill their output queue. -/
def deliver (stage : Nat) (t : Trace) : LoopState :=
  let s := p.stages stage
  p.setStage stage { s with
    hiddenStates := if stage + 1 < cfg.numStages then s.hiddenStates ++ [t] else s.hiddenStates
    outputQueue :=
      if stage = 0 ∨ stage = cfg.lastStage then s.outputQueue ++ [t] else s.outputQueue }

/-- One step; a step that its thread cannot take now is an error. -/
def exec : LoopEvent → Except Unit LoopState
  | .schedule out =>
    match p.scheduleLoop with
    | .idle =>
      let (r, next) := p.schedule cfg out
      if r.out.hasNoOutput then .ok next else .ok { next with scheduleLoop := .scheduled r }
    | _ => .error ()
  | .publish =>
    match p.scheduleLoop with
    | .scheduled r =>
      .ok { p with
        schedulerOutputQueue := p.schedulerOutputQueue ++ [r]
        -- only a round with a batch goes to the workers
        scheduleLoop := if r.out.isEmpty then .idle else .enqueueing r 0 }
    | _ => .error ()
  | .enqueue =>
    match p.scheduleLoop with
    | .enqueueing r k =>
      let p := p.setStage k { p.stages k with
        executionQueue := (p.stages k).executionQueue ++ [r] }
      if k + 1 < cfg.numStages then .ok { p with scheduleLoop := .enqueueing r (k + 1) }
      else .ok { p with scheduleLoop := .idle, enqueued := p.enqueued ++ [r] }
    | _ => .error ()
  | .execute k =>
    match (p.stages k).executionQueue, p.receive k with
    | r :: rest, some (t, p) =>
      .ok ((p.setStage k { p.stages k with executionQueue := rest }).deliver cfg k (t ++ [r]))
    | _, _ => .error ()
  | .getStageOutputs =>
    match p.outputLoop, p.schedulerOutputQueue with
    | .idle, r :: rest => .ok { p with outputLoop := .waiting r, schedulerOutputQueue := rest }
    | _, _ => .error ()
  | .getOutput =>
    match p.outputLoop, (p.stages cfg.lastStage).outputQueue with
    | .waiting r, t :: rest =>
      .ok { p.setStage cfg.lastStage { p.stages cfg.lastStage with outputQueue := rest } with
        outputLoop := .combined r t }
    | _, _ => .error ()
  | .complete =>
    match p.outputLoop with
    | .combined r _ =>
      .ok { p with
        outputLoop := .idle
        numRunningBatches := p.numRunningBatches - 1
        completed := p.completed ++ [r] }
    | _ => .error ()
  | .watch =>
    match (p.stages 0).outputQueue with
    | [] => .error ()
    | _ :: rest => .ok (p.setStage 0 { p.stages 0 with outputQueue := rest })

/-- An interleaving of the loops. -/
def run (events : List LoopEvent) : Except Unit LoopState :=
  events.foldlM (fun p ev => p.exec cfg ev) p

end LoopState

/-! ## The cases of a step -/

/-- What a step can do. -/
inductive LoopStep (cfg : PipelineConfig) (p : LoopState) : LoopEvent → LoopState → Prop where
  /-- The pipeline is full or there is nothing to do. -/
  | noOutput {out : SchedulerOutputs} :
      LoopStep cfg p (.schedule out) { p with iterationId := p.iterationId + 1 }
  /-- A round with a batch. -/
  | batch {out : SchedulerOutputs} (hidle : p.scheduleLoop = .idle)
      (hroom : p.numRunningBatches < cfg.numStages) (hbatch : out.isEmpty = false) :
      LoopStep cfg p (.schedule out) { p with
        iterationId := p.iterationId + 1
        numRunningBatches := p.numRunningBatches + 1
        scheduleLoop := .scheduled ⟨p.iterationId, out⟩ }
  /-- A round that only ignores or preempts. -/
  | silent {out : SchedulerOutputs} (hidle : p.scheduleLoop = .idle)
      (hroom : p.numRunningBatches < cfg.numStages) (hempty : out.isEmpty = true)
      (hout : out.hasNoOutput = false) :
      LoopStep cfg p (.schedule out) { p with
        iterationId := p.iterationId + 1
        scheduleLoop := .scheduled ⟨p.iterationId, out⟩ }
  | publish {r : Round} (hloop : p.scheduleLoop = .scheduled r) :
      LoopStep cfg p .publish { p with
        schedulerOutputQueue := p.schedulerOutputQueue ++ [r]
        scheduleLoop := if r.out.isEmpty then .idle else .enqueueing r 0 }
  | enqueue {r : Round} {k : Nat} (hloop : p.scheduleLoop = .enqueueing r k)
      (hmore : k + 1 < cfg.numStages) :
      LoopStep cfg p .enqueue { p.setStage k { p.stages k with
          executionQueue := (p.stages k).executionQueue ++ [r] } with
        scheduleLoop := .enqueueing r (k + 1) }
  | enqueueLast {r : Round} {k : Nat} (hloop : p.scheduleLoop = .enqueueing r k)
      (hlast : ¬k + 1 < cfg.numStages) :
      LoopStep cfg p .enqueue { p.setStage k { p.stages k with
          executionQueue := (p.stages k).executionQueue ++ [r] } with
        scheduleLoop := .idle, enqueued := p.enqueued ++ [r] }
  | execute {k : Nat} {r : Round} {rest : List Round} {t : Trace} {q : LoopState}
      (hnext : (p.stages k).executionQueue = r :: rest) (hreceive : p.receive k = some (t, q)) :
      LoopStep cfg p (.execute k)
        ((q.setStage k { q.stages k with executionQueue := rest }).deliver cfg k (t ++ [r]))
  | getStageOutputs {r : Round} {rest : List Round} (hloop : p.outputLoop = .idle)
      (hqueue : p.schedulerOutputQueue = r :: rest) :
      LoopStep cfg p .getStageOutputs
        { p with outputLoop := .waiting r, schedulerOutputQueue := rest }
  | getOutput {r : Round} {t : Trace} {rest : List Trace} (hloop : p.outputLoop = .waiting r)
      (hqueue : (p.stages cfg.lastStage).outputQueue = t :: rest) :
      LoopStep cfg p .getOutput
        { p.setStage cfg.lastStage { p.stages cfg.lastStage with outputQueue := rest } with
          outputLoop := .combined r t }
  | complete {r : Round} {t : Trace} (hloop : p.outputLoop = .combined r t) :
      LoopStep cfg p .complete { p with
        outputLoop := .idle
        numRunningBatches := p.numRunningBatches - 1
        completed := p.completed ++ [r] }
  | watch {t : Trace} {rest : List Trace} (hqueue : (p.stages 0).outputQueue = t :: rest) :
      LoopStep cfg p .watch (p.setStage 0 { p.stages 0 with outputQueue := rest })

theorem LoopStep.of_exec {cfg : PipelineConfig} {p p' : LoopState} {ev : LoopEvent}
    (h : p.exec cfg ev = .ok p') : LoopStep cfg p ev p' := by
  cases ev with
  | schedule out =>
    simp only [LoopState.exec] at h
    split at h
    · rename_i hidle
      unfold LoopState.schedule at h
      by_cases hfull : (cfg.numStages : Int) ≤ p.numRunningBatches
      · -- the answer of a full pipeline has no output
        rw [if_pos hfull] at h
        cases h
        exact .noOutput
      have hroom : p.numRunningBatches < cfg.numStages := Int.not_le.mp hfull
      rw [if_neg hfull] at h
      cases hempty : out.isEmpty with
      | true =>
        rw [if_pos hempty] at h
        dsimp only at h
        split_ifs at h with hout
        · cases h
          exact .noOutput
        · cases h
          exact .silent hidle hroom hempty (by simpa using hout)
      | false =>
        have hout : out.hasNoOutput = false := by
          rw [SchedulerOutputs.isEmpty] at hempty
          simp [SchedulerOutputs.hasNoOutput, hempty]
        simp only [hempty, hout, Bool.false_eq_true, if_false] at h
        cases h
        exact .batch hidle hroom hempty
    · cases h
  | publish =>
    simp only [LoopState.exec] at h
    split at h
    · rename_i hloop
      cases h
      exact .publish hloop
    · cases h
  | enqueue =>
    simp only [LoopState.exec] at h
    split at h
    · rename_i hloop
      split_ifs at h with hmore
      · cases h
        exact .enqueue hloop hmore
      · cases h
        exact .enqueueLast hloop hmore
    · cases h
  | execute k =>
    simp only [LoopState.exec] at h
    split at h
    · rename_i hnext hreceive
      cases h
      exact .execute hnext hreceive
    · cases h
  | getStageOutputs =>
    simp only [LoopState.exec] at h
    split at h
    · rename_i hloop hqueue
      cases h
      exact .getStageOutputs hloop hqueue
    · cases h
  | getOutput =>
    simp only [LoopState.exec] at h
    split at h
    · rename_i hloop hqueue
      cases h
      exact .getOutput hloop hqueue
    · cases h
  | complete =>
    simp only [LoopState.exec] at h
    split at h
    · rename_i hloop
      cases h
      exact .complete hloop
    · cases h
  | watch =>
    simp only [LoopState.exec] at h
    split at h
    · cases h
    · rename_i hqueue
      cases h
      exact .watch hqueue

/-- Receiving touches the queues of the stages only. -/
theorem LoopState.receive_frame {p q : LoopState} {k : Nat} {t : Trace}
    (h : p.receive k = some (t, q)) : q = { p with stages := q.stages } := by
  cases k with
  | zero =>
    cases h
    rfl
  | succ k =>
    rw [LoopState.receive] at h
    split at h
    · cases h
    · cases h
      rfl

end VAttention.Pipeline
