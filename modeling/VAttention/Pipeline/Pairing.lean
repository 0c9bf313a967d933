import VAttention.Pipeline.Loops

/-!
# Pairing rounds with the outputs of the last stage

The output loop takes the next round from one queue and the next sampler outputs from another,
so the two streams have to stay aligned.  A round that only ignores or preempts sequences is put
on the first queue and never reaches the workers: the next batch's outputs are then combined
with it, and the counter of running batches goes down for a batch that is still under way.

If no round is of that kind, the invariant `Aligned` holds in every interleaving: each stage has
to execute what the stage before it has sent, followed by what that stage still has to execute.
-/

namespace VAttention.Pipeline

open VAttention.Core VAttention.Lib

/-! ## Contents of the streams -/

namespace ScheduleLoop

/-- The batch that is published and not yet on the queue of the given stage. -/
def toEnqueue : ScheduleLoop → Nat → List Round
  | idle, _ | scheduled _, _ => []
  | enqueueing r j, k => if j ≤ k then [r] else []

/-- The batch in the hands of the loop. -/
def batch : ScheduleLoop → List Round
  | idle => []
  | scheduled r | enqueueing r _ => if r.out.isEmpty then [] else [r]

end ScheduleLoop

namespace OutputLoop

/-- The round that waits for its outputs. -/
def requested : OutputLoop → List Round
  | waiting r => [r]
  | idle | combined _ _ => []

/-- The round whose completion is under way. -/
def completing : OutputLoop → List Round
  | combined r _ => [r]
  | idle | waiting _ => []

end OutputLoop

namespace LoopState

variable (p : LoopState)

/-- What a stage still has to execute, in order. -/
def remaining (k : Nat) : List Round :=
  (p.stages k).executionQueue ++ p.scheduleLoop.toEnqueue k

/-- The rounds for which the output loop has yet to get an output, in order. -/
def awaiting : List Round := p.outputLoop.requested ++ p.schedulerOutputQueue

/-- The batches sent to the workers.  A batch counts as sent from the moment `schedule` returns
    it: the schedule loop does nothing else before it is on all queues. -/
def sent : List Round := p.enqueued ++ p.scheduleLoop.batch

end LoopState

/-- Outputs are paired with their round, and the counter counts the batches in flight. -/
structure Paired (cfg : PipelineConfig) (p : LoopState) : Prop where
  /-- Every stage executed exactly the round that the outputs are combined with. -/
  outputs : ∀ r t, p.outputLoop = .combined r t → t = List.replicate cfg.numStages r
  /-- The batches sent and not completed. -/
  counted : ∃ inFlight, p.sent = p.completed ++ inFlight ∧
    p.numRunningBatches = (inFlight.length : Int)
  nonneg : 0 ≤ p.numRunningBatches
  le_stages : p.numRunningBatches ≤ cfg.numStages

/-! ## Aligned streams -/

theorem lastStage_succ (cfg : PipelineConfig) : cfg.lastStage + 1 = cfg.numStages := by
  have := cfg.valid
  unfold PipelineConfig.lastStage
  omega

theorem lastStage_pos (cfg : PipelineConfig) : 0 < cfg.lastStage := by
  have := cfg.valid
  unfold PipelineConfig.lastStage
  omega

/-- The streams between the stages, given what each stage has left to execute and what the
    output loop waits for. -/
structure Streams (cfg : PipelineConfig) (stages : Nat → Stage) (remaining : Nat → List Round)
    (awaiting : List Round) : Prop where
  /-- A stage executes what the one before has sent, then what that one has left. -/
  handed : ∀ k, k + 1 < cfg.numStages → ∃ rs : List Round,
    (stages k).hiddenStates = rs.map (List.replicate (k + 1)) ∧
      remaining (k + 1) = rs ++ remaining k
  /-- The output loop gets the outputs that are ready, then those of what the last stage has
      left. -/
  ready : ∃ rs : List Round,
    (stages cfg.lastStage).outputQueue = rs.map (List.replicate cfg.numStages) ∧
      awaiting = rs ++ remaining cfg.lastStage

namespace Streams

variable {cfg : PipelineConfig} {stages stages' : Nat → Stage}
  {remaining remaining' : Nat → List Round} {awaiting awaiting' : List Round}

theorem congr (h : Streams cfg stages remaining awaiting)
    (hhidden : ∀ k, (stages' k).hiddenStates = (stages k).hiddenStates)
    (houtput : (stages' cfg.lastStage).outputQueue = (stages cfg.lastStage).outputQueue)
    (hremaining : ∀ k, k < cfg.numStages → remaining' k = remaining k)
    (hawaiting : awaiting' = awaiting) : Streams cfg stages' remaining' awaiting' := by
  have hlast : cfg.lastStage < cfg.numStages := by
    have := lastStage_succ cfg
    omega
  constructor
  · intro k hk
    rw [hhidden, hremaining (k + 1) hk, hremaining k (by omega)]
    exact h.handed k hk
  · rw [houtput, hremaining _ hlast, hawaiting]
    exact h.ready

/-- A new round comes last everywhere. -/
theorem concat (h : Streams cfg stages remaining awaiting) (r : Round) :
    Streams cfg stages (fun k => remaining k ++ [r]) (awaiting ++ [r]) := by
  constructor
  · intro k hk
    obtain ⟨rs, hsent, hrest⟩ := h.handed k hk
    refine ⟨rs, hsent, ?_⟩
    rw [hrest, List.append_assoc]
  · obtain ⟨rs, hsent, hrest⟩ := h.ready
    refine ⟨rs, hsent, ?_⟩
    rw [hrest, List.append_assoc]

/-- The next output of the last stage belongs to the round the output loop waits for. -/
theorem output {r : Round} {t : Trace} (h : Streams cfg stages remaining (r :: awaiting))
    (hqueue : (stages cfg.lastStage).outputQueue = t :: (stages' cfg.lastStage).outputQueue)
    (hhidden : ∀ k, (stages' k).hiddenStates = (stages k).hiddenStates) :
    t = List.replicate cfg.numStages r ∧ Streams cfg stages' remaining awaiting := by
  obtain ⟨rs, hsent, hrest⟩ := h.ready
  rw [hqueue] at hsent
  cases rs with
  | nil => cases hsent
  | cons r' rs =>
    obtain ⟨rfl, hts⟩ := List.cons_eq_cons.mp hsent
    obtain ⟨rfl, hawaiting⟩ := List.cons_eq_cons.mp hrest
    refine ⟨rfl, fun k hk => ?_, rs, hts, hawaiting⟩
    rw [hhidden]
    exact h.handed k hk

/-- The hidden states that a stage receives were computed for the batch that it executes. -/
theorem received (h : Streams cfg stages remaining awaiting) {k : Nat}
    (hk : k + 1 < cfg.numStages) {r : Round} {rest : List Round} {t : Trace} {ts : List Trace}
    (hsent : (stages k).hiddenStates = t :: ts) (hnext : remaining (k + 1) = r :: rest) :
    t = List.replicate (k + 1) r ∧ ∃ rs : List Round,
      ts = rs.map (List.replicate (k + 1)) ∧ rest = rs ++ remaining k := by
  obtain ⟨rs, hrs, hrest⟩ := h.handed k hk
  rw [hsent] at hrs
  rw [hnext] at hrest
  cases rs with
  | nil => cases hrs
  | cons r' rs =>
    obtain ⟨rfl, hts⟩ := List.cons_eq_cons.mp hrs
    obtain ⟨rfl, hleft⟩ := List.cons_eq_cons.mp hrest
    exact ⟨rfl, rs, hts, hleft⟩

end Streams

/-! ## Executing a batch -/

/-- What stage `k` does when it executes `r` on the hidden states `t`. -/
structure Executed (cfg : PipelineConfig) (k : Nat) (r : Round) (t : Trace)
    (stages stages' : Nat → Stage) : Prop where
  next : (stages k).executionQueue = r :: (stages' k).executionQueue
  next_ne : ∀ j, j ≠ k → (stages' j).executionQueue = (stages j).executionQueue
  first : k = 0 → t = []
  received : ∀ j, j + 1 = k → (stages j).hiddenStates = t :: (stages' j).hiddenStates
  sends : k + 1 < cfg.numStages → (stages' k).hiddenStates = (stages k).hiddenStates ++ [t ++ [r]]
  sends_ne : ∀ j, j ≠ k → j + 1 ≠ k → (stages' j).hiddenStates = (stages j).hiddenStates
  outputs : k = cfg.lastStage →
    (stages' k).outputQueue = (stages k).outputQueue ++ [t ++ [r]]
  outputs_ne : k ≠ cfg.lastStage →
    (stages' cfg.lastStage).outputQueue = (stages cfg.lastStage).outputQueue

variable {cfg : PipelineConfig} {p p' : LoopState}

theorem executed_of_receive (cfg : PipelineConfig) {k : Nat} {r : Round} {rest : List Round}
    {t : Trace} {q : LoopState}
    (hnext : (p.stages k).executionQueue = r :: rest) (hreceive : p.receive k = some (t, q)) :
    Executed cfg k r t p.stages
      ((q.setStage k { q.stages k with executionQueue := rest }).deliver cfg k
        (t ++ [r])).stages := by
  simp only [LoopState.deliver, LoopState.setStage]
  cases k with
  | zero =>
    -- the first stage receives nothing
    cases hreceive
    constructor <;> grind [Function.update_apply]
  | succ k =>
    rw [LoopState.receive] at hreceive
    split at hreceive
    · cases hreceive
    · rename_i t' ts hsent
      cases hreceive
      simp only [LoopState.setStage]
      constructor <;> grind [Function.update_apply]

/-- Executing keeps the streams aligned. -/
theorem Streams.execute {stages stages' : Nat → Stage} {remaining remaining' : Nat → List Round}
    {awaiting : List Round} {k : Nat} {r : Round} {t : Trace}
    (h : Streams cfg stages remaining awaiting) (hexec : Executed cfg k r t stages stages')
    (hself : remaining k = r :: remaining' k) (hne : ∀ j, j ≠ k → remaining' j = remaining j) :
    Streams cfg stages' remaining' awaiting := by
  have hlast := lastStage_succ cfg
  -- what the stage computes was computed for this batch by all stages up to it
  have htrace : k < cfg.numStages → t ++ [r] = List.replicate (k + 1) r := by
    intro hk
    cases k with
    | zero => rw [hexec.first rfl]; rfl
    | succ k =>
      obtain ⟨rfl, -⟩ := h.received hk (hexec.received k rfl) hself
      exact List.replicate_succ'.symm
  constructor
  · intro j hj
    obtain ⟨rs, hsent, hrest⟩ := h.handed j hj
    by_cases hjk : j = k
    · -- the stage itself has sent one more
      subst hjk
      refine ⟨rs ++ [r], ?_, ?_⟩
      · rw [hexec.sends hj, hsent, htrace (by omega), List.map_append]
        rfl
      · rw [hne (j + 1) (by omega), hrest, hself, List.append_assoc]
        rfl
    by_cases hjk' : j + 1 = k
    · -- the stage before has one less on the way
      subst hjk'
      obtain ⟨-, rs', hts, hleft⟩ := h.received hj (hexec.received j rfl) hself
      refine ⟨rs', hts, ?_⟩
      rw [hleft, hne j hjk]
    · refine ⟨rs, ?_, ?_⟩
      · rw [hexec.sends_ne j hjk hjk', hsent]
      · rw [hne (j + 1) hjk', hne j hjk, hrest]
  · obtain ⟨rs, hsent, hrest⟩ := h.ready
    by_cases hk : k = cfg.lastStage
    · subst hk
      refine ⟨rs ++ [r], ?_, ?_⟩
      · rw [hexec.outputs rfl, hsent, htrace (by omega), hlast, List.map_append]
        rfl
      · rw [hrest, hself, List.append_assoc]
        rfl
    · refine ⟨rs, ?_, ?_⟩
      · rw [hexec.outputs_ne hk, hsent]
      · rw [hne _ (Ne.symm hk), hrest]

/-! ## The invariant of all loops -/

/-- The loops and their streams, if only rounds with a batch get past `schedule`. -/
structure Aligned (cfg : PipelineConfig) (p : LoopState) : Prop where
  scheduled : ∀ r, p.scheduleLoop = .scheduled r → r.out.isEmpty = false
  enqueueing : ∀ r k, p.scheduleLoop = .enqueueing r k →
    r.out.isEmpty = false ∧ k < cfg.numStages
  streams : Streams cfg p.stages p.remaining p.awaiting
  outputs : ∀ r t, p.outputLoop = .combined r t → t = List.replicate cfg.numStages r
  /-- What the output loop has seen and will see is what is on the queues of all stages. -/
  history : p.completed ++ p.outputLoop.completing ++ p.awaiting =
    p.enqueued ++ p.scheduleLoop.toEnqueue cfg.lastStage
  count : p.numRunningBatches = (p.sent.length : Int) - p.completed.length
  le_stages : p.numRunningBatches ≤ cfg.numStages

theorem ScheduleLoop.batch_of_nonempty {r : Round} (hr : r.out.isEmpty = false) :
    (ScheduleLoop.scheduled r).batch = [r] := by
  simp [ScheduleLoop.batch, hr]

namespace Aligned

theorem start (cfg : PipelineConfig) : Aligned cfg {} where
  scheduled _ h := by cases h
  enqueueing _ _ h := by cases h
  streams := ⟨fun _ _ => ⟨[], rfl, rfl⟩, ⟨[], rfl, rfl⟩⟩
  outputs _ _ h := by cases h
  history := rfl
  count := rfl
  le_stages := by simp

/-- Aligned streams give the right pairs. -/
theorem paired (h : Aligned cfg p) : Paired cfg p := by
  -- what is sent is what is completed, followed by what the output loop still has
  have hsent : ∃ inFlight, p.sent = p.completed ++ inFlight := by
    have hhistory := h.history
    rw [List.append_assoc] at hhistory
    unfold LoopState.sent
    cases hloop : p.scheduleLoop with
    | idle =>
      rw [hloop] at hhistory
      exact ⟨_, hhistory.symm⟩
    | scheduled r =>
      rw [hloop, ScheduleLoop.toEnqueue, List.append_nil] at hhistory
      rw [← hhistory, List.append_assoc]
      exact ⟨_, rfl⟩
    | enqueueing r k =>
      obtain ⟨hbatch, hk⟩ := h.enqueueing r k hloop
      have hlast : k ≤ cfg.lastStage := by
        have := lastStage_succ cfg
        omega
      rw [hloop, ScheduleLoop.toEnqueue, if_pos hlast] at hhistory
      exact ⟨_, (congrArg _ (ScheduleLoop.batch_of_nonempty hbatch)).trans hhistory.symm⟩
  obtain ⟨inFlight, hsent⟩ := hsent
  have hcount : p.numRunningBatches = (inFlight.length : Int) := by
    rw [h.count, hsent, List.length_append]
    omega
  refine ⟨h.outputs, ⟨inFlight, hsent, hcount⟩, ?_, h.le_stages⟩
  omega

theorem noOutput (h : Aligned cfg p) (n : Nat) : Aligned cfg { p with iterationId := n } where
  scheduled := h.scheduled
  enqueueing := h.enqueueing
  streams := h.streams
  outputs := h.outputs
  history := h.history
  count := h.count
  le_stages := h.le_stages

/-- A round with a batch is counted as soon as `schedule` returns it. -/
theorem schedule (h : Aligned cfg p) (hidle : p.scheduleLoop = .idle)
    (hroom : p.numRunningBatches < cfg.numStages) {r : Round} (hr : r.out.isEmpty = false)
    (n : Nat) :
    Aligned cfg { p with
      iterationId := n
      numRunningBatches := p.numRunningBatches + 1
      scheduleLoop := .scheduled r } := by
  constructor
  · rintro _ ⟨⟩
    exact hr
  · rintro _ _ ⟨⟩
  · refine h.streams.congr (fun _ => rfl) rfl (fun k _ => ?_) rfl
    simp only [LoopState.remaining, hidle]
    rfl
  · exact h.outputs
  · have hhistory := h.history
    rw [hidle] at hhistory
    exact hhistory
  · have hcount := h.count
    simp only [LoopState.sent, hidle, ScheduleLoop.batch_of_nonempty hr, List.length_append,
      List.length_singleton] at hcount ⊢
    simp only [ScheduleLoop.batch, List.length_nil] at hcount
    omega
  · dsimp only
    omega

/-- Publishing puts the round at the end of what the output loop waits for, and at the end of
    what every stage has left. -/
theorem publish (h : Aligned cfg p) {r : Round} (hloop : p.scheduleLoop = .scheduled r) :
    Aligned cfg { p with
      schedulerOutputQueue := p.schedulerOutputQueue ++ [r]
      scheduleLoop := if r.out.isEmpty then .idle else .enqueueing r 0 } := by
  have hr := h.scheduled r hloop
  rw [if_neg (by simp [hr])]
  constructor
  · rintro _ ⟨⟩
  · rintro _ _ ⟨⟩
    exact ⟨hr, Nat.lt_trans Nat.zero_lt_one cfg.valid⟩
  · refine (h.streams.concat r).congr (fun _ => rfl) rfl (fun k _ => ?_) ?_
    · simp [LoopState.remaining, hloop, ScheduleLoop.toEnqueue]
    · simp [LoopState.awaiting]
  · exact h.outputs
  · have hhistory := h.history
    rw [hloop, ScheduleLoop.toEnqueue, List.append_nil] at hhistory
    simp only [ScheduleLoop.toEnqueue, Nat.zero_le, if_true, ← hhistory]
    simp [LoopState.awaiting]
  · have hcount := h.count
    rw [LoopState.sent, hloop] at hcount
    exact hcount
  · exact h.le_stages

/-- Putting the batch on the queue of a stage changes nothing for what a stage has left. -/
theorem remaining_enqueue {r : Round} {k : Nat} (hloop : p.scheduleLoop = .enqueueing r k)
    {next : ScheduleLoop} {enqueued : List Round} {j : Nat}
    (hnext : next.toEnqueue j = if k < j then [r] else []) :
    LoopState.remaining { p.setStage k { p.stages k with
        executionQueue := (p.stages k).executionQueue ++ [r] } with
      scheduleLoop := next, enqueued } j = p.remaining j := by
  simp only [LoopState.remaining, LoopState.setStage, hnext, hloop, Function.update_apply]
  rw [ScheduleLoop.toEnqueue]
  by_cases hj : j = k
  · subst hj
    simp
  · rw [if_neg hj]
    by_cases hlt : k < j
    · rw [if_pos hlt, if_pos (Nat.le_of_lt hlt)]
    · rw [if_neg hlt, if_neg (by omega)]

/-- The streams do not depend on which part of a published batch's way is done. -/
theorem streams_enqueue (h : Aligned cfg p) {r : Round} {k : Nat}
    (hloop : p.scheduleLoop = .enqueueing r k) {next : ScheduleLoop} {enqueued : List Round}
    (hnext : ∀ j, j < cfg.numStages → next.toEnqueue j = if k < j then [r] else []) :
    let p' : LoopState := { p.setStage k { p.stages k with
        executionQueue := (p.stages k).executionQueue ++ [r] } with
      scheduleLoop := next, enqueued }
    Streams cfg p'.stages p'.remaining p'.awaiting := by
  refine h.streams.congr (fun j => ?_) ?_ (fun j hj => remaining_enqueue hloop (hnext j hj)) rfl
  · by_cases hj : j = k <;> simp [LoopState.setStage, hj]
  · by_cases hk : cfg.lastStage = k <;> simp [LoopState.setStage, hk]

theorem enqueue (h : Aligned cfg p) {r : Round} {k : Nat}
    (hloop : p.scheduleLoop = .enqueueing r k) (hmore : k + 1 < cfg.numStages) :
    Aligned cfg { p.setStage k { p.stages k with
        executionQueue := (p.stages k).executionQueue ++ [r] } with
      scheduleLoop := .enqueueing r (k + 1) } := by
  have hlast := lastStage_succ cfg
  obtain ⟨hr, -⟩ := h.enqueueing r k hloop
  constructor
  · rintro _ ⟨⟩
  · rintro _ _ ⟨⟩
    exact ⟨hr, hmore⟩
  · exact h.streams_enqueue hloop fun _ _ => rfl
  · exact h.outputs
  · have hhistory := h.history
    rw [hloop, ScheduleLoop.toEnqueue, if_pos (by omega)] at hhistory
    rw [ScheduleLoop.toEnqueue, if_pos (by omega)]
    exact hhistory
  · have hcount := h.count
    rw [LoopState.sent, hloop] at hcount
    exact hcount
  · exact h.le_stages

theorem enqueueLast (h : Aligned cfg p) {r : Round} {k : Nat}
    (hloop : p.scheduleLoop = .enqueueing r k) (hmore : ¬k + 1 < cfg.numStages) :
    Aligned cfg { p.setStage k { p.stages k with
        executionQueue := (p.stages k).executionQueue ++ [r] } with
      scheduleLoop := .idle, enqueued := p.enqueued ++ [r] } := by
  have hlast := lastStage_succ cfg
  obtain ⟨hr, hk⟩ := h.enqueueing r k hloop
  constructor
  · rintro _ ⟨⟩
  · rintro _ _ ⟨⟩
  · refine h.streams_enqueue hloop fun j hj => ?_
    rw [if_neg (by omega)]
    rfl
  · exact h.outputs
  · have hhistory := h.history
    rw [hloop, ScheduleLoop.toEnqueue, if_pos (by omega)] at hhistory
    rw [ScheduleLoop.toEnqueue, List.append_nil]
    exact hhistory
  · have hcount := h.count
    rw [LoopState.sent, hloop] at hcount
    have hbatch : (ScheduleLoop.enqueueing r k).batch = [r] :=
      ScheduleLoop.batch_of_nonempty hr
    rw [hbatch] at hcount
    rw [LoopState.sent, ScheduleLoop.batch, List.append_nil]
    exact hcount
  · exact h.le_stages

theorem execute (h : Aligned cfg p) {k : Nat} {r : Round} {t : Trace}
    {stages' : Nat → Stage} (hexec : Executed cfg k r t p.stages stages') :
    Aligned cfg { p with stages := stages' } where
  scheduled := h.scheduled
  enqueueing := h.enqueueing
  streams := by
    refine h.streams.execute hexec ?_ fun j hj => ?_
    · simp [LoopState.remaining, hexec.next]
    · simp [LoopState.remaining, hexec.next_ne j hj]
  outputs := h.outputs
  history := h.history
  count := h.count
  le_stages := h.le_stages

theorem getStageOutputs (h : Aligned cfg p) {r : Round} {rest : List Round}
    (hloop : p.outputLoop = .idle) (hqueue : p.schedulerOutputQueue = r :: rest) :
    Aligned cfg { p with outputLoop := .waiting r, schedulerOutputQueue := rest } := by
  have hawaiting : p.awaiting = r :: rest := by
    rw [LoopState.awaiting, hloop, hqueue]
    rfl
  constructor
  · exact h.scheduled
  · exact h.enqueueing
  · exact h.streams.congr (fun _ => rfl) rfl (fun _ _ => rfl) hawaiting.symm
  · rintro _ _ ⟨⟩
  · have hhistory := h.history
    rw [hloop, hawaiting] at hhistory
    exact hhistory
  · exact h.count
  · exact h.le_stages

/-- Taking an output of a stage leaves its other queues as they are. -/
theorem setStage_outputQueue (k : Nat) (queue : List Trace) :
    let p' := p.setStage k { p.stages k with outputQueue := queue }
    (∀ j, (p'.stages j).hiddenStates = (p.stages j).hiddenStates) ∧
      ∀ j, p'.remaining j = p.remaining j := by
  constructor
  · intro j
    by_cases hj : j = k <;> simp [LoopState.setStage, hj]
  · intro j
    by_cases hj : j = k <;> simp [LoopState.remaining, LoopState.setStage, hj]

/-- The outputs that the output loop gets are those of the round it has taken. -/
theorem getOutput (h : Aligned cfg p) {r : Round} {t : Trace} {rest : List Trace}
    (hloop : p.outputLoop = .waiting r)
    (hqueue : (p.stages cfg.lastStage).outputQueue = t :: rest) :
    Aligned cfg
      { p.setStage cfg.lastStage { p.stages cfg.lastStage with outputQueue := rest } with
        outputLoop := .combined r t } := by
  obtain ⟨hhidden, hremaining⟩ := setStage_outputQueue (p := p) cfg.lastStage rest
  have hawaiting : p.awaiting = r :: p.schedulerOutputQueue := by
    rw [LoopState.awaiting, hloop]
    rfl
  have hstreams := h.streams
  rw [hawaiting] at hstreams
  obtain ⟨htrace, hstreams⟩ := hstreams.output (by simpa [LoopState.setStage] using hqueue) hhidden
  constructor
  · exact h.scheduled
  · exact h.enqueueing
  · exact hstreams.congr (fun _ => rfl) rfl (fun k _ => hremaining k) rfl
  · rintro _ _ ⟨⟩
    exact htrace
  · have hhistory := h.history
    rw [hloop, hawaiting, OutputLoop.completing, List.append_nil] at hhistory
    rw [OutputLoop.completing, List.append_assoc]
    exact hhistory
  · exact h.count
  · exact h.le_stages

theorem complete (h : Aligned cfg p) {r : Round} {t : Trace}
    (hloop : p.outputLoop = .combined r t) :
    Aligned cfg { p with
      outputLoop := .idle
      numRunningBatches := p.numRunningBatches - 1
      completed := p.completed ++ [r] } := by
  have hawaiting : p.awaiting = p.schedulerOutputQueue := by
    rw [LoopState.awaiting, hloop]
    rfl
  constructor
  · exact h.scheduled
  · exact h.enqueueing
  · exact h.streams.congr (fun _ => rfl) rfl (fun _ _ => rfl) hawaiting.symm
  · rintro _ _ ⟨⟩
  · have hhistory := h.history
    rw [hloop, hawaiting, OutputLoop.completing] at hhistory
    rw [OutputLoop.completing, List.append_nil]
    exact hhistory
  · have hcount := h.count
    have hsent : LoopState.sent { p with
        outputLoop := .idle
        numRunningBatches := p.numRunningBatches - 1
        completed := p.completed ++ [r] } = p.sent := rfl
    rw [hsent, List.length_append, List.length_singleton]
    dsimp only
    omega
  · have := h.le_stages
    dsimp only
    omega

/-- The watch loop reads the queue of the first stage, which is not the last one. -/
theorem watch (h : Aligned cfg p) (rest : List Trace) :
    Aligned cfg (p.setStage 0 { p.stages 0 with outputQueue := rest }) := by
  obtain ⟨hhidden, hremaining⟩ := setStage_outputQueue (p := p) 0 rest
  constructor
  · exact h.scheduled
  · exact h.enqueueing
  · refine h.streams.congr hhidden ?_ (fun k _ => hremaining k) rfl
    simp [LoopState.setStage, Nat.ne_of_gt (lastStage_pos cfg)]
  · exact h.outputs
  · exact h.history
  · exact h.count
  · exact h.le_stages

end Aligned

/-! ## All interleavings -/

/-- A round that `_schedule_loop` puts on `scheduler_output_queue` also goes to the workers: it
    has a batch, or there is nothing in it at all. -/
def roundReachesWorkers (cfg : PipelineConfig) (p : LoopState) : LoopEvent → Bool
  | .schedule out =>
    cfg.numStages ≤ p.numRunningBatches || !out.isEmpty || out.hasNoOutput
  | _ => true

theorem Aligned.exec (h : Aligned cfg p) {ev : LoopEvent} (hround : roundReachesWorkers cfg p ev)
    (hexec : p.exec cfg ev = .ok p') : Aligned cfg p' := by
  cases LoopStep.of_exec hexec with
  | noOutput => exact h.noOutput _
  | batch hidle hroom hbatch => exact h.schedule hidle hroom hbatch _
  | silent hidle hroom hempty hout =>
    have hfull : ¬(cfg.numStages : Int) ≤ p.numRunningBatches := Int.not_le.mpr hroom
    simp [roundReachesWorkers, hempty, hout, hfull] at hround
  | publish hloop => exact h.publish hloop
  | enqueue hloop hmore => exact h.enqueue hloop hmore
  | enqueueLast hloop hlast => exact h.enqueueLast hloop hlast
  | @execute k r rest t q hnext hreceive =>
    have hframe := LoopState.receive_frame hreceive
    have hstages := h.execute (executed_of_receive cfg hnext hreceive)
    generalize hs : ((q.setStage k { q.stages k with executionQueue := rest }).deliver cfg k
      (t ++ [r])).stages = stages' at hstages
    rw [hframe] at hs ⊢
    rw [← hs] at hstages
    exact hstages
  | getStageOutputs hloop hqueue => exact h.getStageOutputs hloop hqueue
  | getOutput hloop hqueue => exact h.getOutput hloop hqueue
  | complete hloop => exact h.complete hloop
  | watch hqueue => exact h.watch _

/-- **Outputs are paired with their round.**  In every interleaving in which every published
    round reaches the workers, the sampler outputs that `_output_loop` combines with a round were
    computed for it by every stage, and `num_running_batches` is the number of batches sent and
    not completed. -/
theorem outputs_paired_of_rounds_reach_workers (cfg : PipelineConfig) {p : LoopState}
    (h : Reaches (fun ev p => p.exec cfg ev) (· = {})
      (fun p ev => roundReachesWorkers cfg p ev) p) : Paired cfg p := by
  have haligned : Aligned cfg p := by
    refine h.invariant (Aligned cfg) ?_ ?_
    · rintro _ rfl
      exact .start cfg
    · intro p ev p' hp hround hexec
      exact hp.exec hround hexec
  exact haligned.paired

/-! ### Two interleavings -/

/-- Two stages. -/
def twoStages : PipelineConfig := ⟨2, by decide⟩

/-- A batch with one sequence. -/
def oneBatch (id : SeqId) : SchedulerOutputs := ⟨[], [], [⟨id, 1⟩]⟩

/-- Two batches are under way at once, and the first is combined with its outputs. -/
def overlappingBatches : List LoopEvent :=
  [.schedule (oneBatch 1), .publish, .getStageOutputs, .enqueue, .execute 0, .enqueue,
    .schedule (oneBatch 2), .publish, .enqueue, .execute 1, .enqueue, .watch, .getOutput]

theorem overlappingBatches_paired :
    ∃ p, LoopState.run twoStages {} overlappingBatches = .ok p ∧
      p.outputLoop = .combined ⟨0, oneBatch 1⟩ [⟨0, oneBatch 1⟩, ⟨0, oneBatch 1⟩] ∧
      p.numRunningBatches = 2 ∧ Paired twoStages p := by
  have hstate : (LoopState.run twoStages {} overlappingBatches).map
      (fun p => (p.outputLoop, p.numRunningBatches)) =
      .ok (.combined ⟨0, oneBatch 1⟩ [⟨0, oneBatch 1⟩, ⟨0, oneBatch 1⟩], 2) := by rfl
  obtain ⟨p, hrun, hp⟩ := map_eq_ok.mp hstate
  obtain ⟨hloop, hcount⟩ := Prod.ext_iff.mp hp
  refine ⟨p, hrun, hloop, hcount, outputs_paired_of_rounds_reach_workers twoStages ?_⟩
  exact Reaches.foldlM (fun _ _ => id) (.init rfl) (by decide +kernel) hrun

/-- A round that only ignores a sequence, and a batch behind it. -/
def ignoredThenBatch : List LoopEvent :=
  [.schedule ⟨[7], [], []⟩, .publish, .getStageOutputs,
    .schedule (oneBatch 1), .publish, .enqueue, .enqueue, .execute 0, .execute 1, .getOutput]

/-- The outputs of the batch are combined with the round before it; completing that round takes
    the counter to zero while the batch is not completed. -/
theorem ignoredThenBatch_mispaired :
    ∃ p, LoopState.run twoStages {} ignoredThenBatch = .ok p ∧
      p.outputLoop = .combined ⟨0, ⟨[7], [], []⟩⟩ [⟨1, oneBatch 1⟩, ⟨1, oneBatch 1⟩] ∧
      ¬Paired twoStages p ∧
      ∃ p', p.exec twoStages .complete = .ok p' ∧ p'.numRunningBatches = 0 ∧
        p'.sent = [⟨1, oneBatch 1⟩] ∧ ⟨1, oneBatch 1⟩ ∉ p'.completed := by
  have hstate : (LoopState.run twoStages {} ignoredThenBatch).map
      (fun p => (p.outputLoop, p.numRunningBatches, p.sent, p.completed)) =
      .ok (.combined ⟨0, ⟨[7], [], []⟩⟩ [⟨1, oneBatch 1⟩, ⟨1, oneBatch 1⟩], 1,
        [⟨1, oneBatch 1⟩], []) := by rfl
  obtain ⟨p, hrun, hp⟩ := map_eq_ok.mp hstate
  simp only [Prod.mk.injEq] at hp
  obtain ⟨hloop, hcount, hsent, hcompleted⟩ := hp
  refine ⟨p, hrun, hloop, ?_, ?_⟩
  · intro hpaired
    exact absurd (hpaired.outputs _ _ hloop) (by decide)
  · refine ⟨{ p with
      outputLoop := .idle
      numRunningBatches := p.numRunningBatches - 1
      completed := p.completed ++ [⟨0, ⟨[7], [], []⟩⟩] },
      by rw [LoopState.exec, hloop], ?_, hsent, ?_⟩
    · rw [hcount]
      rfl
    · simp [hcompleted]

end VAttention.Pipeline
