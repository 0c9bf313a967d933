import VAttention.Lib.Lists
import VAttention.Scheduler.Model

/-!
# What one turn of a scheduling loop can do

`SchedStep` lists the turns of the loops of `_schedule`, each with the conditions under
which the source takes it.  The loop bodies of all policies refine this relation
(`decodeStep_sound` and its siblings), so a run of any policy is a sequence of such steps
(`runPolicy_steps`), and what every step keeps holds when `_schedule` returns.
-/

namespace VAttention.Scheduler

open VAttention.Core VAttention.Lib Relation

variable {β : Type} {cfg : SchedulerConfig} {σ : LoopState β}

/-! ## Chunk lengths -/

/-- A gate gives no chunk beyond the prompt to a sequence whose prompt is processed. -/
def GateSound (gate : LoopState β → Sequence → Except PyError (Option Admission)) : Prop :=
  ∀ σ seq admission, gate σ seq = .ok (some admission) → seq.promptProcessingFinished = true →
    admission.chunkLen ≤ max 0 (remainingPrompt seq)

theorem defaultChunkLen_of_finished {s : Sequence} (h : s.promptProcessingFinished = true) :
    s.defaultChunkLen = 0 := by
  simp [Sequence.defaultChunkLen, h]

theorem vllmGate_sound {maxNumBatchedTokens : Nat} :
    GateSound (vllmGate (β := β) cfg maxNumBatchedTokens) := by
  intro σ seq admission h hprompt
  unfold vllmGate at h
  split_ifs at h
  · cases h
  · cases h
  · cases h
    simp [defaultChunkLen_of_finished hprompt]

theorem orcaGate_sound : GateSound (orcaGate (β := β) cfg) := by
  intro σ seq admission h hprompt
  unfold orcaGate at h
  split_ifs at h
  · cases h
  · cases h
    simp [defaultChunkLen_of_finished hprompt]

theorem chunkGate_sound {next : LoopState β → Sequence → Except PyError Int}
    (hnext : ∀ σ seq n, next σ seq = .ok n →
      n ≤ max 0 (remainingPrompt seq)) :
    GateSound (chunkGate cfg next) := by
  intro σ seq admission h _
  unfold chunkGate at h
  split_ifs at h
  · cases h
  · obtain ⟨n, hn, h⟩ := seq_eq_ok.mp h
    split_ifs at h
    · cases h
    · cases h
      exact hnext σ seq n hn

theorem sarathiNextNumPrefillTokens_le {chunks : ChunkSchedule} {seq : Sequence} {n : Int}
    (h : sarathiNextNumPrefillTokens chunks σ seq = .ok n) :
    n ≤ max 0 (remainingPrompt seq) := by
  obtain ⟨⟨⟩, -, h⟩ := seq_eq_ok.mp h
  obtain ⟨chunkSize, -, h⟩ := seq_eq_ok.mp h
  split_ifs at h
  · cases h
    exact le_max_left _ _
  · cases h
    exact (min_le_left _ _).trans (le_max_right _ _)

theorem simpleNextNumPrefillTokens_le {chunkSize : Nat} {seq : Sequence} {n : Int}
    (h : simpleNextNumPrefillTokens chunkSize σ seq = .ok n) :
    n ≤ max 0 (remainingPrompt seq) := by
  obtain ⟨⟨⟩, -, h⟩ := seq_eq_ok.mp h
  cases h
  exact (min_le_left _ _).trans (le_max_right _ _)

/-! ## The relation -/

variable [BlockSpaceManager β]

/-- The loop a step belongs to; `regroup` is the code between two loops. -/
inductive Phase where
  | decoding (policy : OnUnfinishedPrompt)
  | prefilling
  | orca
  | admission
  | regroup
  deriving DecidableEq

/-- The phases that visit `pending`. -/
def Phase.visits : Phase → Bool
  | decoding _ | prefilling | orca => true
  | admission | regroup => false

/-- A sequence the decode loop asks a slot for: paused, its prompt processed. -/
def Decodable (s : Sequence) : Prop := s.isPaused = true ∧ s.promptProcessingFinished = true

/-- The turns of the loops. -/
inductive SchedStep (cfg : SchedulerConfig) (now : Time) :
    Phase → LoopState β → LoopState β → Prop where
  /-- Leave a sequence in `running` without scheduling it. -/
  | keep {phase : Phase} {σ : LoopState β} {id : SeqId} {rest : List SeqId}
      (hpending : σ.pending = id :: rest) (hvisits : phase.visits = true)
      (hdecode : ∀ policy, phase = .decoding policy → ¬ Decodable (σ.objs id)) :
      SchedStep cfg now phase σ { σ with pending := rest, running := σ.running ++ [id] }
  /-- Sarathi: collect an unfinished prompt for the prefill loop. -/
  | setAside {σ : LoopState β} {id : SeqId} {rest : List SeqId}
      (hpending : σ.pending = id :: rest)
      (hprompt : (σ.objs id).promptProcessingFinished = false) :
      SchedStep cfg now (.decoding .setAside) σ
        { σ with pending := rest, runningPrefills := σ.runningPrefills ++ [id] }
  /-- Schedule one token of a sequence that gets a slot. -/
  | decode {policy : OnUnfinishedPrompt} {σ : LoopState β} {id : SeqId} {rest : List SeqId}
      {blockManager : β}
      (hpending : σ.pending = id :: rest) (hready : Decodable (σ.objs id))
      (hcan : BlockSpaceManager.canAppendSlot σ.blockManager (σ.objs id) = true)
      (happend :
        BlockSpaceManager.appendSlot σ.blockManager id (σ.objs id) = .ok blockManager) :
      SchedStep cfg now (.decoding policy) σ
        { σ with
          blockManager
          pending := rest
          running := σ.running ++ [id]
          scheduled := σ.scheduled ++ [⟨id, (σ.objs id).defaultChunkLen⟩]
          numBatchedTokens := σ.numBatchedTokens + 1 }
  /-- Evict the last sequence of the queue because the first one gets no slot. -/
  | preempt {policy : OnUnfinishedPrompt} {σ : LoopState β} {front victim : SeqId}
      {rest : List SeqId}
      (hpending : σ.pending = rest ++ [victim]) (hfront : σ.pending.head? = some front)
      (hready : Decodable (σ.objs front))
      (hcan : BlockSpaceManager.canAppendSlot σ.blockManager (σ.objs front) = false)
      (hexecuting : (σ.objs victim).isExecuting = true) :
      SchedStep cfg now (.decoding policy) σ
        { σ with
          blockManager := BlockSpaceManager.enqueuePreempted
            (BlockSpaceManager.free σ.blockManager victim (σ.objs victim)) victim
          waiting := victim :: σ.waiting
          preempted := σ.preempted ++ [victim]
          pending := rest }
  /-- Schedule a chunk of an unfinished prompt. -/
  | prefill {σ : LoopState β} {id : SeqId} {rest : List SeqId} {chunkLen : Int}
      (hpending : σ.pending = id :: rest)
      (hprompt : (σ.objs id).promptProcessingFinished = false) :
      SchedStep cfg now .prefilling σ (schedulePrefill id rest chunkLen σ)
  /-- Orca and FasterTransformer: schedule a paused sequence unconditionally. -/
  | orcaDecode {σ : LoopState β} {id : SeqId} {rest : List SeqId}
      (hpending : σ.pending = id :: rest) (hready : Decodable (σ.objs id)) :
      SchedStep cfg now .orca σ
        { σ with
          pending := rest
          running := σ.running ++ [id]
          scheduled := σ.scheduled ++ [⟨id, (σ.objs id).defaultChunkLen⟩] }
  /-- Drop a waiting sequence that is longer than the model allows. -/
  | ignore {σ : LoopState β} {id : SeqId} {rest : List SeqId}
      (hwaiting : σ.waiting = id :: rest) (harrived : (σ.objs id).arrivalTime ≤ now)
      (hlong : cfg.maxModelLen < (σ.objs id).getLen)
      (hstatus : (σ.objs id).status = .waiting) :
      SchedStep cfg now .admission σ
        { σ with
          objs := Function.update σ.objs id { σ.objs id with status := .finishedIgnored }
          waiting := rest
          ignored := σ.ignored ++ [id] }
  /-- Admit a waiting sequence. -/
  | enter {σ : LoopState β} {id : SeqId} {rest : List SeqId} {blockManager : β}
      {chunkLen numTokens : Int} (hwaiting : σ.waiting = id :: rest)
      (harrived : (σ.objs id).arrivalTime ≤ now)
      (hfits : (σ.objs id).getLen ≤ cfg.maxModelLen)
      (hcan : BlockSpaceManager.canAllocate σ.blockManager (σ.objs id) = true)
      (hallocate : BlockSpaceManager.allocate σ.blockManager id (σ.objs id) = .ok blockManager)
      (hchunk : (σ.objs id).promptProcessingFinished = true →
        chunkLen ≤ max 0 (remainingPrompt (σ.objs id))) :
      SchedStep cfg now .admission σ
        { σ with
          blockManager
          waiting := rest
          running := σ.running ++ [id]
          scheduled := σ.scheduled ++ [⟨id, chunkLen⟩]
          numBatchedTokens := σ.numBatchedTokens + numTokens
          batchContainsPrefill := true }
  /-- Give the sequences of `running`, in some order, to the next loop. -/
  | requeue {σ : LoopState β} {order : List SeqId} (horder : order.Perm σ.running)
      (hpending : σ.pending = []) (hscheduled : σ.scheduled = []) :
      SchedStep cfg now .regroup σ { σ with pending := order, running := [] }
  /-- Sarathi: give the sequences set aside to the prefill loop. -/
  | takePrefills {σ : LoopState β} (hpending : σ.pending = []) :
      SchedStep cfg now .regroup σ { σ with pending := σ.runningPrefills, runningPrefills := [] }

/-- Any number of steps of any loops. -/
def SchedSteps (cfg : SchedulerConfig) (now : Time) : LoopState β → LoopState β → Prop :=
  ReflTransGen fun σ σ' => ∃ phase, SchedStep cfg now phase σ σ'

variable {now : Time} {σ' : LoopState β}

/-! ## The loop bodies refine the relation -/

theorem preempt_eq_ok {id : SeqId} (h : preempt id σ = .ok σ') :
    (σ.objs id).isExecuting = true ∧
      σ' = { σ with
        blockManager := BlockSpaceManager.enqueuePreempted
          (BlockSpaceManager.free σ.blockManager id (σ.objs id)) id
        waiting := id :: σ.waiting
        preempted := σ.preempted ++ [id] } := by
  obtain ⟨⟨⟩, hexecuting, hrest⟩ := seq_eq_ok.mp h
  rw [assertThat_eq_ok] at hexecuting
  cases hrest
  exact ⟨hexecuting, rfl⟩

theorem decodeStep_sound {policy : OnUnfinishedPrompt}
    (h : decodeStep policy σ = .ok (some σ')) : SchedStep cfg now (.decoding policy) σ σ' := by
  unfold decodeStep at h
  split at h
  · cases h
  · rename_i id rest hpending
    dsimp only at h
    split_ifs at h with hpaused hprompt hcan
    · cases h
      refine .keep hpending rfl fun _ _ hready => ?_
      simp [hready.1] at hpaused
    · -- an unfinished prompt: the policies differ
      have hunfinished : (σ.objs id).promptProcessingFinished = false := by simpa using hprompt
      cases policy with
      | assertNone => cases h
      | setAside =>
        cases h
        exact .setAside hpending hunfinished
      | keep =>
        cases h
        refine .keep hpending rfl fun _ _ hready => ?_
        simp [hready.2] at hunfinished
    · obtain ⟨bm, happend, hrest⟩ := seq_eq_ok.mp h
      cases hrest
      exact .decode hpending ⟨by simpa using hpaused, by simpa using hprompt⟩ hcan happend
    · obtain ⟨σ₁, hpre, hrest⟩ := seq_eq_ok.mp h
      obtain ⟨hexecuting, rfl⟩ := preempt_eq_ok hpre
      cases hrest
      -- the victim is the last of the queue, which may be the front itself
      have hready : Decodable (σ.objs id) := ⟨by simpa using hpaused, by simpa using hprompt⟩
      have hsplit : σ.pending = (id :: rest).dropLast ++ [rest.getLastD id] :=
        hpending.trans (cons_eq_dropLast_append id rest).symm
      exact .preempt hsplit (by rw [hpending]; rfl) hready (by simpa using hcan) hexecuting

theorem sarathiPrefillStep_sound {chunks : ChunkSchedule}
    (h : sarathiPrefillStep chunks σ = .ok (some σ')) : SchedStep cfg now .prefilling σ σ' := by
  unfold sarathiPrefillStep at h
  split at h
  · cases h
  · rename_i id rest hpending
    obtain ⟨⟨⟩, hprompt, h⟩ := seq_eq_ok.mp h
    obtain ⟨next, -, h⟩ := seq_eq_ok.mp h
    rw [assertThat_eq_ok] at hprompt
    split_ifs at h with hzero
    · cases h
      exact .keep hpending rfl (by simp)
    · cases h
      exact .prefill hpending (by simpa using hprompt)

theorem simplePrefillStep_sound {chunkSize : Nat}
    (h : simplePrefillStep chunkSize σ = .ok (some σ')) : SchedStep cfg now .prefilling σ σ' := by
  unfold simplePrefillStep at h
  split at h
  · cases h
  · rename_i id rest hpending
    dsimp only at h
    split_ifs at h with hpaused hprompt
    -- not paused, or its prompt is processed: both stay as they are
    · cases h
      exact .keep hpending rfl (by simp)
    · cases h
      exact .keep hpending rfl (by simp)
    · obtain ⟨next, -, h⟩ := seq_eq_ok.mp h
      split_ifs at h with hzero
      · cases h
        exact .keep hpending rfl (by simp)
      · cases h
        exact .prefill hpending (by simpa using hprompt)

theorem orcaStep_sound (h : orcaStep σ = .ok (some σ')) : SchedStep cfg now .orca σ σ' := by
  unfold orcaStep at h
  split at h
  · cases h
  · rename_i id rest hpending
    dsimp only at h
    split_ifs at h with hpaused
    · cases h
      exact .keep hpending rfl (by simp)
    · obtain ⟨⟨⟩, hprompt, h⟩ := seq_eq_ok.mp h
      rw [assertThat_eq_ok] at hprompt
      cases h
      exact .orcaDecode hpending ⟨by simpa using hpaused, hprompt⟩

theorem setStatus_finishedIgnored {s s' : Sequence} (h : s.setStatus .finishedIgnored = .ok s') :
    s.status = .waiting ∧ s' = { s with status := .finishedIgnored } := by
  unfold Sequence.setStatus at h
  split_ifs at h with hbecome
  cases h
  refine ⟨?_, rfl⟩
  -- only `WAITING` may become `FINISHED_IGNORED`
  revert hbecome
  cases s.status <;> simp [SequenceStatus.canBecome]

/-- A turn of the loop over `waiting` that goes on, with what the policy's gate has said. -/
inductive AdmissionTurn (cfg : SchedulerConfig) (now : Time)
    (gate : LoopState β → Sequence → Except PyError (Option Admission)) (σ : LoopState β) :
    LoopState β → Prop where
  | ignore {id : SeqId} {rest : List SeqId} (hwaiting : σ.waiting = id :: rest)
      (harrived : (σ.objs id).arrivalTime ≤ now) (hlong : cfg.maxModelLen < (σ.objs id).getLen)
      (hstatus : (σ.objs id).status = .waiting) :
      AdmissionTurn cfg now gate σ
        { σ with
          objs := Function.update σ.objs id { σ.objs id with status := .finishedIgnored }
          waiting := rest
          ignored := σ.ignored ++ [id] }
  | enter {id : SeqId} {rest : List SeqId} {blockManager : β} {admission : Admission}
      (hwaiting : σ.waiting = id :: rest) (harrived : (σ.objs id).arrivalTime ≤ now)
      (hfits : (σ.objs id).getLen ≤ cfg.maxModelLen)
      (hcan : BlockSpaceManager.canAllocate σ.blockManager (σ.objs id) = true)
      (hgate : gate σ (σ.objs id) = .ok (some admission))
      (hallocate : BlockSpaceManager.allocate σ.blockManager id (σ.objs id) = .ok blockManager) :
      AdmissionTurn cfg now gate σ
        { σ with
          blockManager
          waiting := rest
          running := σ.running ++ [id]
          scheduled := σ.scheduled ++ [⟨id, admission.chunkLen⟩]
          numBatchedTokens := σ.numBatchedTokens + admission.numTokens
          batchContainsPrefill := true }

theorem admissionStep_turn {gate : LoopState β → Sequence → Except PyError (Option Admission)}
    (h : admissionStep cfg now gate σ = .ok (some σ')) : AdmissionTurn cfg now gate σ σ' := by
  unfold admissionStep at h
  split at h
  · cases h
  · rename_i id rest hwaiting
    dsimp only at h
    split_ifs at h with harrived hlong hcan
    · cases h
    · obtain ⟨seq, hstatus, h⟩ := seq_eq_ok.mp h
      obtain ⟨hwait, rfl⟩ := setStatus_finishedIgnored hstatus
      cases h
      exact .ignore hwaiting (not_lt.mp harrived) hlong hwait
    · cases h
    · obtain ⟨admission, hadm, h⟩ := seq_eq_ok.mp h
      cases admission with
      | none => cases h
      | some admission =>
        obtain ⟨bm, hallocate, h⟩ := seq_eq_ok.mp h
        cases h
        exact .enter hwaiting (not_lt.mp harrived) (not_lt.mp hlong) (by simpa using hcan) hadm
          hallocate

theorem admissionStep_sound
    {gate : LoopState β → Sequence → Except PyError (Option Admission)} (hgate : GateSound gate)
    (h : admissionStep cfg now gate σ = .ok (some σ')) : SchedStep cfg now .admission σ σ' := by
  cases admissionStep_turn h with
  | ignore hwaiting harrived hlong hstatus => exact .ignore hwaiting harrived hlong hstatus
  | enter hwaiting harrived hfits hcan hadm hallocate =>
    exact .enter hwaiting harrived hfits hcan hallocate (hgate σ _ _ hadm)

/-! ## Whole runs -/

/-- A turn over `pending` takes one sequence from it. -/
theorem SchedStep.pending_length {phase : Phase} (h : SchedStep cfg now phase σ σ')
    (hvisits : phase.visits = true) : σ'.pending.length + 1 = σ.pending.length := by
  cases h with
  | keep hpending | setAside hpending | decode hpending | prefill hpending
  | orcaDecode hpending => simp [hpending, schedulePrefill]
  | preempt hpending => simp [hpending]
  | ignore | enter | requeue | takePrefills => simp [Phase.visits] at hvisits

/-- Only Sarathi's decode loop puts sequences aside. -/
theorem SchedStep.runningPrefills_eq_nil {phase : Phase} (h : SchedStep cfg now phase σ σ')
    (hphase : phase ≠ .decoding .setAside) (hnil : σ.runningPrefills = []) :
    σ'.runningPrefills = [] := by
  cases h with
  | setAside => exact absurd rfl hphase
  | keep | decode | preempt | prefill | orcaDecode | ignore | enter | requeue => exact hnil
  | takePrefills => rfl

instance : Trans (SchedSteps (β := β) cfg now) (SchedSteps cfg now) (SchedSteps cfg now) :=
  ⟨ReflTransGen.trans⟩

/-- Steps of one loop are steps. -/
theorem SchedSteps.of_phase {phase : Phase} (h : ReflTransGen (SchedStep cfg now phase) σ σ') :
    SchedSteps cfg now σ σ' :=
  ReflTransGen.mono (fun _ _ hstep => ⟨phase, hstep⟩) _ _ h

theorem visitPending_steps {step : LoopState β → Except PyError (Option (LoopState β))}
    {phase : Phase} (hvisits : phase.visits = true)
    (hsound : ∀ σ σ', step σ = .ok (some σ') → SchedStep cfg now phase σ σ')
    (hleave : ∀ σ, step σ = .ok none → σ.pending = []) (h : visitPending step σ = .ok σ') :
    ReflTransGen (SchedStep cfg now phase) σ σ' ∧ σ'.pending = [] := by
  refine ⟨iterate_reflTransGen hsound h, ?_⟩
  have hlen := iterate_exhausts (fun σ : LoopState β => σ.pending.length)
    (fun σ σ' hstep => (hsound σ σ' hstep).pending_length hvisits)
    (fun σ hstep => by simp [hleave σ hstep]) le_rfl h
  exact List.length_eq_zero_iff.mp hlen

theorem decodeStep_leave {policy : OnUnfinishedPrompt} (h : decodeStep policy σ = .ok none) :
    σ.pending = [] := by
  unfold decodeStep at h
  split at h
  · assumption
  · dsimp only at h
    split_ifs at h
    · cases h
    · cases policy <;> cases h
    all_goals
      obtain ⟨_, -, h⟩ := seq_eq_ok.mp h
      cases h

omit [BlockSpaceManager β] in
theorem sarathiPrefillStep_leave {chunks : ChunkSchedule}
    (h : sarathiPrefillStep chunks σ = .ok none) : σ.pending = [] := by
  unfold sarathiPrefillStep at h
  split at h
  · assumption
  · obtain ⟨⟨⟩, -, h⟩ := seq_eq_ok.mp h
    obtain ⟨next, -, h⟩ := seq_eq_ok.mp h
    split_ifs at h <;> cases h

omit [BlockSpaceManager β] in
theorem simplePrefillStep_leave {chunkSize : Nat} (h : simplePrefillStep chunkSize σ = .ok none) :
    σ.pending = [] := by
  unfold simplePrefillStep at h
  split at h
  · assumption
  · dsimp only at h
    split_ifs at h
    · cases h
    · cases h
    · obtain ⟨next, -, h⟩ := seq_eq_ok.mp h
      split_ifs at h <;> cases h

omit [BlockSpaceManager β] in
theorem orcaStep_leave (h : orcaStep σ = .ok none) : σ.pending = [] := by
  unfold orcaStep at h
  split at h
  · assumption
  · dsimp only at h
    split_ifs at h
    · cases h
    · obtain ⟨⟨⟩, -, h⟩ := seq_eq_ok.mp h
      cases h

theorem decodeLoop_steps (cfg : SchedulerConfig) (now : Time) {policy : OnUnfinishedPrompt}
    (h : visitPending (decodeStep policy) σ = .ok σ') :
    ReflTransGen (SchedStep cfg now (.decoding policy)) σ σ' ∧ σ'.pending = [] :=
  visitPending_steps rfl (fun _ _ => decodeStep_sound) (fun _ => decodeStep_leave) h

theorem sarathiPrefillLoop_steps (cfg : SchedulerConfig) (now : Time) {chunks : ChunkSchedule}
    (h : visitPending (sarathiPrefillStep chunks) σ = .ok σ') :
    ReflTransGen (SchedStep cfg now .prefilling) σ σ' ∧ σ'.pending = [] :=
  visitPending_steps rfl (fun _ _ => sarathiPrefillStep_sound)
    (fun _ => sarathiPrefillStep_leave) h

theorem simplePrefillLoop_steps (cfg : SchedulerConfig) (now : Time) {chunkSize : Nat}
    (h : visitPending (simplePrefillStep chunkSize) σ = .ok σ') :
    ReflTransGen (SchedStep cfg now .prefilling) σ σ' ∧ σ'.pending = [] :=
  visitPending_steps rfl (fun _ _ => simplePrefillStep_sound) (fun _ => simplePrefillStep_leave) h

theorem orcaLoop_steps (cfg : SchedulerConfig) (now : Time) (h : visitPending orcaStep σ = .ok σ') :
    ReflTransGen (SchedStep cfg now .orca) σ σ' ∧ σ'.pending = [] :=
  visitPending_steps rfl (fun _ _ => orcaStep_sound) (fun _ => orcaStep_leave) h

theorem admitWaiting_steps {gate : LoopState β → Sequence → Except PyError (Option Admission)}
    (hgate : GateSound gate) (h : admitWaiting cfg now gate σ = .ok σ') :
    ReflTransGen (SchedStep cfg now .admission) σ σ' :=
  iterate_reflTransGen (fun _ _ => admissionStep_sound hgate) h

section Admission

variable {maxNumBatchedTokens chunkSize : Nat} {chunks : ChunkSchedule}

theorem vllmAdmission_steps
    (h : admitWaiting cfg now (vllmGate cfg maxNumBatchedTokens) σ = .ok σ') :
    ReflTransGen (SchedStep cfg now .admission) σ σ' :=
  admitWaiting_steps vllmGate_sound h

theorem sarathiAdmission_steps
    (h : admitWaiting cfg now (chunkGate cfg (sarathiNextNumPrefillTokens chunks)) σ = .ok σ') :
    ReflTransGen (SchedStep cfg now .admission) σ σ' :=
  admitWaiting_steps (chunkGate_sound fun _ _ _ => sarathiNextNumPrefillTokens_le) h

theorem simpleAdmission_steps
    (h : admitWaiting cfg now (chunkGate cfg (simpleNextNumPrefillTokens chunkSize)) σ = .ok σ') :
    ReflTransGen (SchedStep cfg now .admission) σ σ' :=
  admitWaiting_steps (chunkGate_sound fun _ _ _ => simpleNextNumPrefillTokens_le) h

theorem orcaAdmission_steps (h : admitWaiting cfg now (orcaGate cfg) σ = .ok σ') :
    ReflTransGen (SchedStep cfg now .admission) σ σ' :=
  admitWaiting_steps orcaGate_sound h

end Admission

/-- Admission leaves the queue over the running sequences alone. -/
theorem SchedStep.pending_eq_of_admission (h : SchedStep cfg now .admission σ σ') :
    σ'.pending = σ.pending := by
  cases h with
  | keep _ hvisits => cases hvisits
  | ignore | enter => rfl

/-- What `_schedule` leaves behind: every loop has run to its end. -/
structure LoopState.Complete (σ : LoopState β) : Prop where
  pending : σ.pending = []
  runningPrefills : σ.runningPrefills = []

theorem SchedSteps.runningPrefills_eq_nil {phase : Phase}
    (h : ReflTransGen (SchedStep cfg now phase) σ σ') (hphase : phase ≠ .decoding .setAside)
    (hnil : σ.runningPrefills = []) : σ'.runningPrefills = [] :=
  reflTransGen_invariant (fun σ => σ.runningPrefills = [])
    (fun _ _ hstep => hstep.runningPrefills_eq_nil hphase) h hnil

theorem Complete.of_visit {phase : Phase}
    (h : ReflTransGen (SchedStep cfg now phase) σ σ' ∧ σ'.pending = [])
    (hphase : phase ≠ .decoding .setAside) (hnil : σ.runningPrefills = []) : σ'.Complete :=
  ⟨h.2, SchedSteps.runningPrefills_eq_nil h.1 hphase hnil⟩

theorem Complete.of_admission (h : ReflTransGen (SchedStep cfg now .admission) σ σ')
    (hσ : σ.Complete) : σ'.Complete where
  pending := reflTransGen_invariant (fun σ => σ.pending = [])
    (fun _ _ hstep hnil => hstep.pending_eq_of_admission.trans hnil) h hσ.pending
  runningPrefills := SchedSteps.runningPrefills_eq_nil h (by simp) hσ.runningPrefills

/-! ## The policies taken apart

A policy is a few loops one after another.  That is said here once, so that what a policy does to
an invariant can be read off its loops. -/

section Apart

variable {turn turn' : Turn} {maxNumBatchedTokens chunkSize : Nat}

omit [BlockSpaceManager β] in
/-- The test behind an admission loop has found nothing to return. -/
theorem nil_of_no_outputs (h : ¬(!σ.scheduled.isEmpty || !σ.ignored.isEmpty) = true) :
    σ.scheduled = [] ∧ σ.ignored = [] := by
  simpa using h

/-- vLLM decodes only if the admission loop has neither admitted nor dropped a sequence. -/
theorem vllmSchedule_eq_ok (h : vllmSchedule cfg maxNumBatchedTokens now σ = .ok σ') :
    ∃ σ₁, admitWaiting cfg now (vllmGate cfg maxNumBatchedTokens)
        { σ with blockManager := BlockSpaceManager.clearPromisedBlocks σ.blockManager } = .ok σ₁ ∧
      (σ' = σ₁ ∨ σ₁.scheduled = [] ∧ σ₁.ignored = [] ∧
        visitPending (decodeStep .assertNone) (σ₁.requeueRunning now) = .ok σ') := by
  obtain ⟨σ₁, hadm, h⟩ := seq_eq_ok.mp h
  refine ⟨σ₁, hadm, ?_⟩
  split_ifs at h with hsome
  · cases h
    exact .inl rfl
  · obtain ⟨hscheduled, hignored⟩ := nil_of_no_outputs hsome
    exact .inr ⟨hscheduled, hignored, h⟩

/-- The loops of simple chunking, up to the one that fills the batch. -/
inductive SimpleRun (cfg : SchedulerConfig) (chunkSize : Nat) (now : Time) (σ σ' : LoopState β) :
    Prop where
  /-- It is the turn of the decodes. -/
  | decodes (hdecode : visitPending (decodeStep .keep) (σ.requeueRunning now) = .ok σ')
  /-- The running prompts fill the batch. -/
  | prefills
      (hprefill : visitPending (simplePrefillStep chunkSize) (σ.requeueRunning now) = .ok σ')
  /-- New prompts are admitted or dropped. -/
  | admits {σ₁ : LoopState β}
      (hprefill : visitPending (simplePrefillStep chunkSize) (σ.requeueRunning now) = .ok σ₁)
      (hadm : admitWaiting cfg now (chunkGate cfg (simpleNextNumPrefillTokens chunkSize)) σ₁ =
        .ok σ')
  /-- There is nothing to prefill, and the decodes take over. -/
  | passes {σ₁ σ₂ : LoopState β}
      (hprefill : visitPending (simplePrefillStep chunkSize) (σ.requeueRunning now) = .ok σ₁)
      (hadm : admitWaiting cfg now (chunkGate cfg (simpleNextNumPrefillTokens chunkSize)) σ₁ =
        .ok σ₂)
      (hscheduled : σ₂.scheduled = []) (hignored : σ₂.ignored = [])
      (hdecode : visitPending (decodeStep .keep) { σ₂ with pending := σ₂.running, running := [] } =
        .ok σ')

theorem simpleSchedule_run (h : simpleSchedule cfg chunkSize now turn σ = .ok (σ', turn')) :
    SimpleRun cfg chunkSize now σ σ' := by
  cases turn with
  | decode =>
    obtain ⟨σ₁, hdecode, h⟩ := seq_eq_ok.mp h
    cases h
    exact .decodes hdecode
  | prefill =>
    obtain ⟨σ₁, hprefill, h⟩ := seq_eq_ok.mp h
    split_ifs at h with hsome
    · cases h
      exact .prefills hprefill
    · obtain ⟨σ₂, hadm, h⟩ := seq_eq_ok.mp h
      split_ifs at h with hsome₂
      · cases h
        exact .admits hprefill hadm
      · obtain ⟨hscheduled, hignored⟩ := nil_of_no_outputs hsome₂
        obtain ⟨σ₃, hdecode, h⟩ := seq_eq_ok.mp h
        cases h
        exact .passes hprefill hadm hscheduled hignored hdecode

theorem runPolicy_vllm (hpolicy : cfg.policy = .vllm maxNumBatchedTokens)
    (h : runPolicy cfg now turn σ = .ok (σ', turn')) :
    vllmSchedule cfg maxNumBatchedTokens now σ = .ok σ' := by
  simp only [runPolicy, hpolicy] at h
  obtain ⟨σ₁, hrun, hpure⟩ := seq_eq_ok.mp h
  cases hpure
  exact hrun

theorem runPolicy_sarathi {chunks : ChunkSchedule} (hpolicy : cfg.policy = .sarathi chunks)
    (h : runPolicy cfg now turn σ = .ok (σ', turn')) :
    sarathiSchedule cfg chunks now σ = .ok σ' := by
  simp only [runPolicy, hpolicy] at h
  obtain ⟨σ₁, hrun, hpure⟩ := seq_eq_ok.mp h
  cases hpure
  exact hrun

/-- The policy that a call of `_schedule` runs. -/
inductive PolicyRun (cfg : SchedulerConfig) (now : Time) (σ σ' : LoopState β) : Prop where
  | vllm {maxNumBatchedTokens : Nat} (hpolicy : cfg.policy = .vllm maxNumBatchedTokens)
      (h : vllmSchedule cfg maxNumBatchedTokens now σ = .ok σ')
  | sarathi {chunks : ChunkSchedule} (hpolicy : cfg.policy = .sarathi chunks)
      (h : sarathiSchedule cfg chunks now σ = .ok σ')
  | simpleChunking {chunkSize : Nat} (hpolicy : cfg.policy = .simpleChunking chunkSize)
      (h : SimpleRun cfg chunkSize now σ σ')
  /-- Orca always goes on to the admission loop, FasterTransformer after an empty batch only. -/
  | orca {σ₁ : LoopState β} (hpolicy : cfg.policy = .orca ∨ cfg.policy = .fasterTransformer)
      (horca : visitPending orcaStep { σ with pending := σ.running, running := [] } = .ok σ₁)
      (hadm : σ' = σ₁ ∨ admitWaiting cfg now (orcaGate cfg) σ₁ = .ok σ')

theorem runPolicy_run (h : runPolicy cfg now turn σ = .ok (σ', turn')) :
    PolicyRun cfg now σ σ' := by
  cases hpolicy : cfg.policy with
  | vllm n => exact .vllm hpolicy (runPolicy_vllm hpolicy h)
  | sarathi chunks => exact .sarathi hpolicy (runPolicy_sarathi hpolicy h)
  | simpleChunking chunkSize =>
    simp only [runPolicy, hpolicy] at h
    exact .simpleChunking hpolicy (simpleSchedule_run h)
  | orca =>
    simp only [runPolicy, hpolicy] at h
    obtain ⟨σ₁, hrun, hpure⟩ := seq_eq_ok.mp h
    cases hpure
    obtain ⟨σ₂, horca, hadm⟩ := seq_eq_ok.mp hrun
    exact .orca (.inl hpolicy) horca (.inr hadm)
  | fasterTransformer =>
    simp only [runPolicy, hpolicy] at h
    obtain ⟨σ₁, hrun, hpure⟩ := seq_eq_ok.mp h
    cases hpure
    obtain ⟨σ₂, horca, hadm⟩ := seq_eq_ok.mp hrun
    refine .orca (.inr hpolicy) horca ?_
    split_ifs at hadm with hsome
    · cases hadm
      exact .inl rfl
    · exact .inr hadm

end Apart

/-- A call of `schedule` does nothing if all stages are busy, and else runs the policy. -/
theorem schedule_eq_ok {objs objs' : Heap} {s s' : SchedulerState β} {out : SchedulerOutputs}
    (h : schedule cfg now objs s = .ok (objs', s', out)) :
    (objs' = objs ∧ s' = s ∧ out = ⟨[], [], []⟩) ∨
    ∃ σ turn, runPolicy cfg now s.whoseTurn (s.start objs) = .ok (σ, turn) ∧ objs' = σ.objs ∧
      s' =
        { waiting := σ.waiting
          running := σ.running
          blockManager := σ.blockManager
          numRunningBatches := s.numRunningBatches + if σ.outputs.isEmpty then 0 else 1
          whoseTurn := turn } ∧
      out = σ.outputs := by
  unfold schedule at h
  split_ifs at h with hbusy
  · cases h
    exact .inl ⟨rfl, rfl, rfl⟩
  · obtain ⟨⟨σ, turn⟩, hrun, h⟩ := seq_eq_ok.mp h
    cases h
    exact .inr ⟨σ, turn, hrun, rfl, rfl, rfl⟩

/-! ## The policies as sequences of steps -/

theorem sortByPriority_perm (now : Time) (objs : Heap) (ids : List SeqId) :
    (sortByPriority now objs ids).Perm ids :=
  List.perm_insertionSort _ ids

theorem requeueRunning_step (hpending : σ.pending = []) (hscheduled : σ.scheduled = []) :
    SchedSteps cfg now σ (σ.requeueRunning now) :=
  .single ⟨.regroup, .requeue (sortByPriority_perm now σ.objs σ.running) hpending hscheduled⟩

/-- What the vLLM and Sarathi schedulers do to the block manager before their first loop. -/
def SchedulerConfig.startManager (cfg : SchedulerConfig) (blockManager : β) : β :=
  match cfg.policy with
  | .vllm _ | .sarathi _ => BlockSpaceManager.clearPromisedBlocks blockManager
  | .orca | .fasterTransformer | .simpleChunking _ => blockManager

/-- A state in which no loop has run yet. -/
structure LoopState.Initial (σ : LoopState β) : Prop extends σ.Complete where
  scheduled : σ.scheduled = []

theorem vllmSchedule_steps {maxNumBatchedTokens : Nat} (hσ : σ.Initial)
    (h : vllmSchedule cfg maxNumBatchedTokens now σ = .ok σ') :
    SchedSteps cfg now
        { σ with blockManager := BlockSpaceManager.clearPromisedBlocks σ.blockManager } σ' ∧
      σ'.Complete := by
  obtain ⟨σ₁, hadm, hrest⟩ := vllmSchedule_eq_ok h
  have hsteps := vllmAdmission_steps hadm
  have hcomplete : σ₁.Complete := Complete.of_admission hsteps ⟨hσ.pending, hσ.runningPrefills⟩
  rcases hrest with rfl | ⟨hnone, -, hdecode⟩
  · exact ⟨.of_phase hsteps, hcomplete⟩
  · have hdecode := decodeLoop_steps cfg now hdecode
    refine ⟨?_, Complete.of_visit hdecode (by simp) hcomplete.runningPrefills⟩
    calc SchedSteps cfg now _ σ₁ := .of_phase hsteps
      SchedSteps cfg now _ _ := requeueRunning_step hcomplete.pending hnone
      SchedSteps cfg now _ σ' := .of_phase hdecode.1

/-- Sarathi's two loops over the running sequences. -/
theorem sarathiLoops_steps (cfg : SchedulerConfig) {chunks : ChunkSchedule} {σ₁ σ₂ : LoopState β}
    (hσ : σ.Initial)
    (hdecode : visitPending (decodeStep .setAside) (σ.requeueRunning now) = .ok σ₁)
    (hprefill : visitPending (sarathiPrefillStep chunks)
      { σ₁ with pending := σ₁.runningPrefills, runningPrefills := [] } = .ok σ₂) :
    SchedSteps cfg now σ σ₂ ∧ σ₂.Complete := by
  have hdecode := decodeLoop_steps cfg now hdecode
  have hprefill := sarathiPrefillLoop_steps cfg now hprefill
  refine ⟨?_, Complete.of_visit hprefill (by simp) rfl⟩
  -- the two regroupings are steps of their own
  calc SchedSteps cfg now σ _ := requeueRunning_step hσ.pending hσ.scheduled
    SchedSteps cfg now _ σ₁ := .of_phase hdecode.1
    SchedSteps cfg now _ _ := .single ⟨.regroup, .takePrefills hdecode.2⟩
    SchedSteps cfg now _ σ₂ := .of_phase hprefill.1

theorem sarathiSchedule_steps {chunks : ChunkSchedule} (hσ : σ.Initial)
    (h : sarathiSchedule cfg chunks now σ = .ok σ') :
    SchedSteps cfg now
        { σ with blockManager := BlockSpaceManager.clearPromisedBlocks σ.blockManager } σ' ∧
      σ'.Complete := by
  obtain ⟨σ₁, hdecode, h⟩ := seq_eq_ok.mp h
  obtain ⟨σ₂, hprefill, h⟩ := seq_eq_ok.mp h
  have hadm := sarathiAdmission_steps h
  obtain ⟨hsteps, hcomplete⟩ := sarathiLoops_steps cfg
    ⟨⟨by exact hσ.pending, by exact hσ.runningPrefills⟩, by exact hσ.scheduled⟩ hdecode hprefill
  exact ⟨Trans.trans hsteps (SchedSteps.of_phase hadm), Complete.of_admission hadm hcomplete⟩

/-- The first loop of simple chunking when it is the turn of the prefills. -/
theorem simplePrefillPhase_steps (cfg : SchedulerConfig) {chunkSize : Nat} (hσ : σ.Initial)
    (h : visitPending (simplePrefillStep chunkSize) (σ.requeueRunning now) = .ok σ') :
    SchedSteps cfg now σ σ' ∧ σ'.Complete := by
  have hprefill := simplePrefillLoop_steps cfg now h
  refine ⟨?_, Complete.of_visit hprefill (by simp) hσ.runningPrefills⟩
  calc SchedSteps cfg now σ _ := requeueRunning_step hσ.pending hσ.scheduled
    SchedSteps cfg now _ σ' := .of_phase hprefill.1

theorem SimpleRun.steps {chunkSize : Nat} (hσ : σ.Initial)
    (h : SimpleRun cfg chunkSize now σ σ') : SchedSteps cfg now σ σ' ∧ σ'.Complete := by
  cases h with
  | decodes hdecode =>
    have hdecode := decodeLoop_steps cfg now hdecode
    refine ⟨?_, Complete.of_visit hdecode (by simp) hσ.runningPrefills⟩
    calc SchedSteps cfg now σ _ := requeueRunning_step hσ.pending hσ.scheduled
      SchedSteps cfg now _ σ' := .of_phase hdecode.1
  | prefills hprefill => exact simplePrefillPhase_steps cfg hσ hprefill
  | admits hprefill hadm =>
    obtain ⟨hsteps₁, hcomplete₁⟩ := simplePrefillPhase_steps cfg hσ hprefill
    have hadm := simpleAdmission_steps hadm
    exact ⟨Trans.trans hsteps₁ (SchedSteps.of_phase hadm), Complete.of_admission hadm hcomplete₁⟩
  | @passes σ₁ σ₂ hprefill hadm hnone _ hdecode =>
    obtain ⟨hsteps₁, hcomplete₁⟩ := simplePrefillPhase_steps cfg hσ hprefill
    have hadm := simpleAdmission_steps hadm
    have hcomplete₂ := Complete.of_admission hadm hcomplete₁
    have hdecode := decodeLoop_steps cfg now hdecode
    refine ⟨?_, Complete.of_visit hdecode (by simp) hcomplete₂.runningPrefills⟩
    -- nothing was admitted: the decode loop visits the sequences in the same order
    calc SchedSteps cfg now σ σ₁ := hsteps₁
      SchedSteps cfg now _ σ₂ := .of_phase hadm
      SchedSteps cfg now _ _ := .single ⟨.regroup, .requeue .rfl hcomplete₂.pending hnone⟩
      SchedSteps cfg now _ σ' := .of_phase hdecode.1

/-- The first loop of Orca and FasterTransformer. -/
theorem orcaRunning_steps (cfg : SchedulerConfig) (now : Time) (hσ : σ.Initial)
    (h : visitPending orcaStep { σ with pending := σ.running, running := [] } = .ok σ') :
    SchedSteps cfg now σ σ' ∧ σ'.Complete := by
  have horca := orcaLoop_steps cfg now h
  refine ⟨?_, Complete.of_visit horca (by simp) hσ.runningPrefills⟩
  calc SchedSteps cfg now σ _ := .single ⟨.regroup, .requeue .rfl hσ.pending hσ.scheduled⟩
    SchedSteps cfg now _ σ' := .of_phase horca.1

/-- **Every policy is a sequence of steps**: a call of `_schedule` that returns has taken
    finitely many `SchedStep`s and has emptied its queues. -/
theorem runPolicy_steps {turn turn' : Turn} (hσ : σ.Initial)
    (h : runPolicy cfg now turn σ = .ok (σ', turn')) :
    SchedSteps cfg now { σ with blockManager := cfg.startManager σ.blockManager } σ' ∧
      σ'.Complete := by
  unfold SchedulerConfig.startManager
  cases runPolicy_run h with
  | vllm hpolicy h =>
    rw [hpolicy]
    exact vllmSchedule_steps hσ h
  | sarathi hpolicy h =>
    rw [hpolicy]
    exact sarathiSchedule_steps hσ h
  | simpleChunking hpolicy h =>
    rw [hpolicy]
    exact h.steps hσ
  | orca hpolicy horca hadm =>
    obtain ⟨hsteps, hcomplete⟩ := orcaRunning_steps cfg now hσ horca
    have hfinal : SchedSteps cfg now σ σ' ∧ σ'.Complete := by
      rcases hadm with rfl | hadm
      · exact ⟨hsteps, hcomplete⟩
      · have hadm := orcaAdmission_steps hadm
        exact ⟨Trans.trans hsteps (SchedSteps.of_phase hadm),
          Complete.of_admission hadm hcomplete⟩
    rcases hpolicy with hpolicy | hpolicy <;> rw [hpolicy] <;> exact hfinal

/-- **Rule of invariants** for the block manager and the victims: what every step keeps, a call of
    `schedule` keeps. -/
theorem schedule_manager_invariant {objs objs' : Heap} {s s' : SchedulerState β}
    {out : SchedulerOutputs} (P : β → List SeqId → Prop) (hstart : P s.blockManager [])
    (hclear : P (BlockSpaceManager.clearPromisedBlocks s.blockManager) [])
    (hstep : ∀ phase σ σ', SchedStep cfg now phase σ σ' → P σ.blockManager σ.preempted →
      P σ'.blockManager σ'.preempted)
    (h : schedule cfg now objs s = .ok (objs', s', out)) :
    P s'.blockManager out.preemptedSeqIds := by
  rcases schedule_eq_ok h with ⟨-, rfl, rfl⟩ | ⟨σ, turn, hrun, -, rfl, rfl⟩
  · exact hstart
  · obtain ⟨hsteps, -⟩ := runPolicy_steps ⟨⟨rfl, rfl⟩, rfl⟩ hrun
    refine reflTransGen_invariant (fun σ : LoopState β => P σ.blockManager σ.preempted)
      (fun _ _ ⟨_, hone⟩ => hstep _ _ _ hone) hsteps ?_
    unfold SchedulerConfig.startManager
    split
    · exact hclear
    · exact hclear
    all_goals exact hstart

/-- The same for the objects, of which a call only marks the dropped ones. -/
theorem schedule_forall_objs {objs objs' : Heap} {s s' : SchedulerState β}
    {out : SchedulerOutputs} (P : Sequence → Prop)
    (hignore : ∀ seq, P seq → P { seq with status := .finishedIgnored })
    (h : schedule cfg now objs s = .ok (objs', s', out)) (hobjs : ∀ id, P (objs id)) :
    ∀ id, P (objs' id) := by
  rcases schedule_eq_ok h with ⟨rfl, -, -⟩ | ⟨σ, turn, hrun, rfl, -, -⟩
  · exact hobjs
  obtain ⟨hsteps, -⟩ := runPolicy_steps ⟨⟨rfl, rfl⟩, rfl⟩ hrun
  refine reflTransGen_invariant (fun σ : LoopState β => ∀ id, P (σ.objs id)) ?_ hsteps hobjs
  rintro τ τ' ⟨phase, hstep⟩ hτ
  cases hstep with
  | @ignore _ dropped =>
    intro id
    dsimp only
    by_cases hid : id = dropped
    · rw [hid, Function.update_self]
      exact hignore _ (hτ dropped)
    · rw [Function.update_of_ne hid]
      exact hτ id
  | _ => exact hτ

/-- The same for `on_step_completed`, which frees what has finished. -/
theorem onStepCompleted_manager_invariant {objs : Heap} {s : SchedulerState β} (P : β → Prop)
    (hstart : P s.blockManager)
    (hfree : ∀ manager id seq, P manager → P (BlockSpaceManager.free manager id seq)) :
    P (s.onStepCompleted objs).blockManager :=
  List.foldlRecOn _ _ hstart fun manager hmanager id _ => hfree manager id (objs id) hmanager

end VAttention.Scheduler
