import VAttention.Lib.Runs
import VAttention.Scheduler.Invariants

/-!
# Runs of a scheduler

A scheduler on its own: sequences are added, `schedule` and `on_step_completed` are called in any
order, and between the calls engine and block manager do what they want.  A record of the
sequences that have left the scheduler shows that none is lost or duplicated.

## Layers

- **Layer A**: the running list never exceeds `max_num_seqs`.
- **Layer B**: runs of calls, and their invariant.
- **Layer C**: where every sequence is.
-/

namespace VAttention.Scheduler

open VAttention.Core VAttention.Lib Relation

variable {β : Type} {cfg : SchedulerConfig} {now : Time} {σ σ' : LoopState β}

/-! ## Layer A: the length of the running list -/

/-- A gate admits nobody to a full list. -/
def GateBounded (cfg : SchedulerConfig)
    (gate : LoopState β → Sequence → Except PyError (Option Admission)) : Prop :=
  ∀ σ seq admission, gate σ seq = .ok (some admission) → σ.running.length < cfg.maxNumSeqs

theorem vllmGate_bounded {maxNumBatchedTokens : Nat} :
    GateBounded cfg (vllmGate (β := β) cfg maxNumBatchedTokens) := by
  intro σ seq admission h
  unfold vllmGate at h
  split_ifs at h with htokens hfull
  · cases h
  · cases h
  · omega

theorem orcaGate_bounded : GateBounded cfg (orcaGate (β := β) cfg) := by
  intro σ seq admission h
  unfold orcaGate at h
  split_ifs at h with hfull
  · cases h
  · omega

theorem chunkGate_bounded {next : LoopState β → Sequence → Except PyError Int} :
    GateBounded cfg (chunkGate cfg next) := by
  intro σ seq admission h
  unfold chunkGate at h
  split_ifs at h with hfull
  · cases h
  · omega

section Length

variable [BlockSpaceManager β]

theorem admissionStep_length {gate : LoopState β → Sequence → Except PyError (Option Admission)}
    (hgate : GateBounded cfg gate) (h : admissionStep cfg now gate σ = .ok (some σ'))
    (hlen : σ.running.length ≤ cfg.maxNumSeqs) : σ'.running.length ≤ cfg.maxNumSeqs := by
  cases admissionStep_turn h with
  | ignore => exact hlen
  | enter _ _ _ _ hadm =>
    have hroom := hgate σ _ _ hadm
    simp only [List.length_append, List.length_singleton]
    omega

theorem admitWaiting_length {gate : LoopState β → Sequence → Except PyError (Option Admission)}
    (hgate : GateBounded cfg gate) (h : admitWaiting cfg now gate σ = .ok σ')
    (hlen : σ.running.length ≤ cfg.maxNumSeqs) : σ'.running.length ≤ cfg.maxNumSeqs := by
  exact iterate_invariant (fun σ : LoopState β => σ.running.length ≤ cfg.maxNumSeqs)
    (fun _ _ => admissionStep_length hgate) h hlen

/-- Sequences that are in one of the lists over the running sequences. -/
def LoopState.activeLength (σ : LoopState β) : Nat :=
  σ.pending.length + σ.running.length + σ.runningPrefills.length

omit [BlockSpaceManager β] in
theorem LoopState.Complete.activeLength_eq (h : σ.Complete) :
    σ.activeLength = σ.running.length := by
  simp [LoopState.activeLength, h.pending, h.runningPrefills]

/-- The loops over the running sequences admit nobody. -/
theorem SchedStep.activeLength_le {phase : Phase} (h : SchedStep cfg now phase σ σ')
    (hvisits : phase.visits = true) : σ'.activeLength ≤ σ.activeLength := by
  cases h with
  | keep hpending | setAside hpending | decode hpending | prefill hpending
  | orcaDecode hpending | preempt hpending =>
    simp only [LoopState.activeLength, schedulePrefill, hpending, List.length_append,
      List.length_cons, List.length_nil]
    omega
  | ignore | enter | requeue | takePrefills => cases hvisits

theorem visit_length {phase : Phase} (hvisits : phase.visits = true)
    (h : ReflTransGen (SchedStep cfg now phase) σ σ' ∧ σ'.pending = []) :
    σ'.running.length + σ'.runningPrefills.length ≤ σ.activeLength := by
  have hle := reflTransGen_invariant (fun τ : LoopState β => τ.activeLength ≤ σ.activeLength)
    (fun _ _ hstep hle => (hstep.activeLength_le hvisits).trans hle) h.1 le_rfl
  simp only [LoopState.activeLength, h.2, List.length_nil] at hle
  simp only [LoopState.activeLength]
  omega

omit [BlockSpaceManager β] in
/-- Sorting the running sequences into the queue loses none of them. -/
theorem requeueRunning_activeLength (hpending : σ.pending = []) :
    (σ.requeueRunning now).activeLength = σ.activeLength := by
  have hlen := (sortByPriority_perm now σ.objs σ.running).length_eq
  simp only [LoopState.activeLength, LoopState.requeueRunning, hpending, hlen, List.length_nil]
  omega

/-- The first loop of Orca and FasterTransformer. -/
theorem orcaRunning_length (cfg : SchedulerConfig) (now : Time) (hσ : σ.Initial)
    (h : visitPending orcaStep { σ with pending := σ.running, running := [] } = .ok σ') :
    σ'.running.length ≤ σ.running.length := by
  have hvisit := visit_length rfl (orcaLoop_steps cfg now h)
  simp only [LoopState.activeLength, hσ.runningPrefills, List.length_nil] at hvisit
  omega

theorem vllmSchedule_length {maxNumBatchedTokens : Nat} (hσ : σ.Initial)
    (hlen : σ.running.length ≤ cfg.maxNumSeqs)
    (h : vllmSchedule cfg maxNumBatchedTokens now σ = .ok σ') :
    σ'.running.length ≤ cfg.maxNumSeqs := by
  obtain ⟨σ₁, hadm, hrest⟩ := vllmSchedule_eq_ok h
  have hlen₁ := admitWaiting_length vllmGate_bounded hadm (by exact hlen)
  have hcomplete : σ₁.Complete := Complete.of_admission (vllmAdmission_steps hadm)
    ⟨hσ.pending, hσ.runningPrefills⟩
  rcases hrest with rfl | ⟨-, -, hdecode⟩
  · exact hlen₁
  · have hvisit := visit_length rfl (decodeLoop_steps cfg now hdecode)
    rw [requeueRunning_activeLength hcomplete.pending, hcomplete.activeLength_eq] at hvisit
    omega

theorem sarathiSchedule_length {chunks : ChunkSchedule} (hσ : σ.Initial)
    (hlen : σ.running.length ≤ cfg.maxNumSeqs)
    (h : sarathiSchedule cfg chunks now σ = .ok σ') : σ'.running.length ≤ cfg.maxNumSeqs := by
  obtain ⟨σ₁, hdecode, h⟩ := seq_eq_ok.mp h
  obtain ⟨σ₂, hprefill, h⟩ := seq_eq_ok.mp h
  have hvisit₁ := visit_length rfl (decodeLoop_steps cfg now hdecode)
  rw [requeueRunning_activeLength (by exact hσ.pending)] at hvisit₁
  have hvisit₂ := visit_length rfl (sarathiPrefillLoop_steps cfg now hprefill)
  have hstart : σ.activeLength = σ.running.length := hσ.activeLength_eq
  simp only [LoopState.activeLength, List.length_nil] at hvisit₁ hvisit₂ hstart
  exact admitWaiting_length chunkGate_bounded h (by omega)

/-- The first loop of simple chunking when it is the turn of the prefills. -/
theorem simplePrefillPhase_length (cfg : SchedulerConfig) {chunkSize : Nat} (hσ : σ.Initial)
    (h : visitPending (simplePrefillStep chunkSize) (σ.requeueRunning now) = .ok σ') :
    σ'.running.length ≤ σ.running.length := by
  have hvisit := visit_length rfl (simplePrefillLoop_steps cfg now h)
  rw [requeueRunning_activeLength hσ.pending, hσ.activeLength_eq] at hvisit
  omega

theorem SimpleRun.length {chunkSize : Nat} (hσ : σ.Initial)
    (hlen : σ.running.length ≤ cfg.maxNumSeqs) (h : SimpleRun cfg chunkSize now σ σ') :
    σ'.running.length ≤ cfg.maxNumSeqs := by
  cases h with
  | decodes hdecode =>
    have hvisit := visit_length rfl (decodeLoop_steps cfg now hdecode)
    rw [requeueRunning_activeLength hσ.pending, hσ.activeLength_eq] at hvisit
    omega
  | prefills hprefill => exact (simplePrefillPhase_length cfg hσ hprefill).trans hlen
  | admits hprefill hadm =>
    have hlen₁ := (simplePrefillPhase_length cfg hσ hprefill).trans hlen
    exact admitWaiting_length chunkGate_bounded hadm hlen₁
  | passes hprefill hadm _ _ hdecode =>
    have hlen₁ := (simplePrefillPhase_length cfg hσ hprefill).trans hlen
    have hlen₂ := admitWaiting_length chunkGate_bounded hadm hlen₁
    have hcomplete₁ := (simplePrefillPhase_steps cfg hσ hprefill).2
    have hcomplete₂ := Complete.of_admission (simpleAdmission_steps hadm) hcomplete₁
    have hvisit := visit_length rfl (decodeLoop_steps cfg now hdecode)
    simp only [LoopState.activeLength, hcomplete₂.runningPrefills, List.length_nil] at hvisit
    omega

/-- **No policy overfills the running list.** -/
theorem runPolicy_length {turn turn' : Turn} (hσ : σ.Initial)
    (hlen : σ.running.length ≤ cfg.maxNumSeqs)
    (h : runPolicy cfg now turn σ = .ok (σ', turn')) : σ'.running.length ≤ cfg.maxNumSeqs := by
  cases runPolicy_run h with
  | vllm _ h => exact vllmSchedule_length hσ hlen h
  | sarathi _ h => exact sarathiSchedule_length hσ hlen h
  | simpleChunking _ h => exact h.length hσ hlen
  | orca _ horca hadm =>
    have hlen₁ := (orcaRunning_length cfg now hσ horca).trans hlen
    rcases hadm with rfl | hadm
    · exact hlen₁
    · exact admitWaiting_length orcaGate_bounded hadm hlen₁

theorem schedule_length {objs objs' : Heap} {s s' : SchedulerState β} {out : SchedulerOutputs}
    (h : schedule cfg now objs s = .ok (objs', s', out))
    (hlen : s.running.length ≤ cfg.maxNumSeqs) : s'.running.length ≤ cfg.maxNumSeqs := by
  rcases schedule_eq_ok h with ⟨-, rfl, -⟩ | ⟨σ, turn, hrun, -, rfl, -⟩
  · exact hlen
  · exact runPolicy_length ⟨⟨rfl, rfl⟩, rfl⟩ hlen hrun

end Length

/-! ## Layer B: runs of calls -/

/-- A scheduler with the objects of its sequences, and a record of what became of them. -/
structure SchedulerRun (β : Type) where
  objs : Heap
  scheduler : SchedulerState β
  /-- The sequences added, in order. -/
  added : List SeqId
  /-- Those that `on_step_completed` has dropped. -/
  finished : List SeqId
  /-- Those that `schedule` has reported as ignored. -/
  ignored : List SeqId
  /-- Calls of `schedule` with a non-empty batch. -/
  numScheduled : Nat
  /-- Calls of `on_step_completed`. -/
  numCompleted : Nat

/-- A new scheduler. -/
def SchedulerRun.start (objs : Heap) (blockManager : β) : SchedulerRun β where
  objs := objs
  scheduler := {
    waiting := []
    running := []
    blockManager
    numRunningBatches := 0
    whoseTurn := .prefill }
  added := []
  finished := []
  ignored := []
  numScheduled := 0
  numCompleted := 0

/-- A call of the scheduler, or what happens between the calls. -/
inductive SchedulerEvent (β : Type) where
  | addSeq (seq : Sequence)
  | schedule (now : Time)
  | onStepCompleted
  /-- Engine and block manager change the objects and the block manager in any way; the arrival
      time of a sequence is set by its constructor only. -/
  | environment (objs : Heap) (blockManager : β)

/-- Effect of an event. -/
def SchedulerEvent.exec [BlockSpaceManager β] (cfg : SchedulerConfig) (event : SchedulerEvent β)
    (r : SchedulerRun β) : Except PyError (SchedulerRun β) :=
  match event with
  | .addSeq seq =>
    .ok { r with
      objs := Function.update r.objs seq.seqId seq
      scheduler := r.scheduler.addSeq seq.seqId
      added := r.added ++ [seq.seqId] }
  | .schedule now => do
    let (objs, scheduler, out) ← Scheduler.schedule cfg now r.objs r.scheduler
    pure { r with
      objs, scheduler
      ignored := r.ignored ++ out.ignoredSeqIds
      numScheduled := r.numScheduled + if out.isEmpty then 0 else 1 }
  | .onStepCompleted =>
    .ok { r with
      scheduler := r.scheduler.onStepCompleted r.objs
      finished := r.finished ++ r.scheduler.running.filter fun id => (r.objs id).isFinished
      numCompleted := r.numCompleted + 1 }
  | .environment objs blockManager =>
    .ok { r with
      objs := fun id => { objs id with arrivalTime := (r.objs id).arrivalTime }
      scheduler := { r.scheduler with blockManager } }

/-- A run of events. -/
def SchedulerRun.run [BlockSpaceManager β] (cfg : SchedulerConfig)
    (events : List (SchedulerEvent β)) (r : SchedulerRun β) : Except PyError (SchedulerRun β) :=
  events.foldlM (fun r event => event.exec cfg r) r

/-- Added sequences have new ids. -/
def distinctIds (r : SchedulerRun β) : SchedulerEvent β → Bool
  | .addSeq seq => seq.seqId ∉ r.added
  | _ => true

/-- Invariant of the runs. -/
structure RunInv (cfg : SchedulerConfig) (r : SchedulerRun β) : Prop where
  added_nodup : r.added.Nodup
  /-- The lists together hold every sequence once. -/
  partition : (r.scheduler.waiting ++ r.scheduler.running ++ (r.finished ++ r.ignored)).Perm r.added
  length : r.scheduler.running.length ≤ cfg.maxNumSeqs
  batches : r.scheduler.numRunningBatches = (r.numScheduled : Int) - r.numCompleted
  stages : r.scheduler.numRunningBatches ≤ cfg.numPipelineStages

theorem RunInv.start (cfg : SchedulerConfig) (objs : Heap) (blockManager : β) :
    RunInv cfg (.start objs blockManager) where
  added_nodup := List.nodup_nil
  partition := .nil
  length := Nat.zero_le _
  batches := rfl
  stages := Int.natCast_nonneg _

theorem RunInv.nodup {r : SchedulerRun β} (h : RunInv cfg r) :
    (r.scheduler.waiting ++ r.scheduler.running).Nodup :=
  (h.partition.nodup_iff.mpr h.added_nodup).of_append_left

section Runs

variable [BlockSpaceManager β] {r r' : SchedulerRun β}

/-- A call of `schedule` moves sequences and counts the batch. -/
theorem RunInv.schedule (h : RunInv cfg r)
    (hexec : (SchedulerEvent.schedule (β := β) now).exec cfg r = .ok r') : RunInv cfg r' := by
  obtain ⟨⟨objs, s, out⟩, hschedule, hrest⟩ := seq_eq_ok.mp hexec
  cases hrest
  have hspec := schedule_spec h.nodup hschedule
  have hbatches := hspec.numRunningBatches
  have hold := h.batches
  refine ⟨h.added_nodup, ?_, schedule_length hschedule h.length, ?_, ?_⟩
  · -- the ignored sequences go to the end of the record
    rw [List.perm_iff_count]
    intro id
    have hmoved := hspec.perm.count_eq id
    have hall := h.partition.count_eq id
    simp only [List.count_append] at hmoved hall ⊢
    omega
  -- a batch that is not empty is counted on both sides
  · rw [hbatches, hold]
    cases out.isEmpty
    · simp
      omega
    · simp
  · rw [hbatches]
    -- a call that does something starts below the number of stages
    unfold Scheduler.schedule at hschedule
    split_ifs at hschedule with hbusy
    · cases hschedule
      simpa [SchedulerOutputs.isEmpty] using h.stages
    · split_ifs <;> omega

theorem RunInv.onStepCompleted (h : RunInv cfg r)
    (hexec : (SchedulerEvent.onStepCompleted (β := β)).exec cfg r = .ok r') : RunInv cfg r' := by
  cases hexec
  have hold := h.batches
  have hstages := h.stages
  refine ⟨h.added_nodup, ?_, ?_, ?_, ?_⟩
  -- the finished sequences move from `running` to the record
  · rw [List.perm_iff_count]
    intro id
    have hall := h.partition.count_eq id
    have hsplit := (List.filter_append_perm (fun id => (r.objs id).isFinished)
      r.scheduler.running).count_eq id
    simp only [List.count_append] at hall hsplit
    simp only [SchedulerState.onStepCompleted, List.count_append]
    omega
  · exact (List.length_filter_le _ _).trans h.length
  · simp only [SchedulerState.onStepCompleted]
    omega
  · simp only [SchedulerState.onStepCompleted]
    omega

/-- **Step lemma**: every event with a new id keeps the invariant. -/
theorem RunInv.exec {event : SchedulerEvent β} (h : RunInv cfg r)
    (hguard : distinctIds r event = true) (hexec : event.exec cfg r = .ok r') :
    RunInv cfg r' := by
  cases event with
  | addSeq seq =>
    cases hexec
    have hnew : seq.seqId ∉ r.added := of_decide_eq_true hguard
    refine ⟨?_, ?_, h.length, h.batches, h.stages⟩
    · rw [← List.concat_eq_append]
      exact h.added_nodup.concat hnew
    · rw [List.perm_iff_count]
      intro id
      have hall := h.partition.count_eq id
      simp only [List.count_append] at hall
      simp only [SchedulerState.addSeq, List.count_append]
      omega
  | schedule now => exact h.schedule hexec
  | onStepCompleted => exact h.onStepCompleted hexec
  | environment objs blockManager =>
    cases hexec
    exact ⟨h.added_nodup, h.partition, h.length, h.batches, h.stages⟩

/-- The states that a scheduler reaches. -/
def SchedulerReaches (cfg : SchedulerConfig) (guard : SchedulerRun β → SchedulerEvent β → Prop) :
    SchedulerRun β → Prop :=
  Reaches (SchedulerEvent.exec cfg) (fun r => ∃ objs blockManager, r = .start objs blockManager)
    guard

/-- **Run lemma**: the invariant holds in every state reached with distinct ids. -/
theorem SchedulerReaches.runInv {guard : SchedulerRun β → SchedulerEvent β → Prop}
    (hguard : ∀ r event, guard r event → distinctIds r event = true)
    (hreach : SchedulerReaches cfg guard r) : RunInv cfg r := by
  apply hreach.invariant (RunInv cfg)
  · rintro r ⟨objs, blockManager, rfl⟩
    exact .start cfg objs blockManager
  · intro r event r' h hg hexec
    exact h.exec (hguard r event hg) hexec

/-! ## Layer C: where every sequence is -/

end Runs

/-- Sarathi with chunks of four tokens, two sequences at most and one pipeline stage. -/
def smallSarathi : SchedulerConfig where
  policy := .sarathi (.fixed 4)
  maxNumSeqs := 2
  maxModelLen := 4
  numPipelineStages := 1
  vllm_limit := by simp

/-- Three sequences; the first one runs and finishes, the second one is scheduled after it. -/
def threeSequences : List (SchedulerEvent PagedBlockManager) :=
  let seq (id : SeqId) (arrivalTime : Time) : Sequence :=
    .new id [] [1, 2] 2 none arrivalTime {}
  let finish : Heap := fun id =>
    { seq id 0 with status := if id = 0 then .finishedStopped else .waiting }
  [.addSeq (seq 0 0), .addSeq (seq 1 1), .addSeq (seq 2 2), .schedule 9,
    .environment finish (.newVllm 4), .onStepCompleted, .schedule 9]

/-- A scheduler with four blocks. -/
def pagedStart : SchedulerRun PagedBlockManager :=
  .start (fun id => .new id [] [] 1 none 0 {}) (.newVllm 4)

end VAttention.Scheduler
