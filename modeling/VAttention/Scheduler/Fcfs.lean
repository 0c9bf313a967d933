import VAttention.Scheduler.Progress
import VAttention.Scheduler.Runs

/-!
# First come, first served

The vLLM, Sarathi and simple chunking schedulers visit the running sequences oldest first, evict
from the end of that queue, and put each victim at the front of `waiting`.  Nothing ever sorts
`waiting`; it stays sorted because whatever is evicted is younger than what stays, and older than
what waits.

Arrival times are taken in any linear order `α`.
-/

namespace VAttention.Scheduler

open VAttention.Core VAttention.Lib Relation

variable {β α : Type} [LinearOrder α] {cfg : SchedulerConfig} {now : Time} {σ σ' : LoopState β}
  {arrival : SeqId → α} {W R : List SeqId} {objs₀ : Heap}

/-- Oldest first. -/
def SortedBy (arrival : SeqId → α) (ids : List SeqId) : Prop :=
  ids.Pairwise fun a b => arrival a ≤ arrival b

/-- Every sequence of the first list arrived no later than every one of the second. -/
def Before (arrival : SeqId → α) (older younger : List SeqId) : Prop :=
  ∀ a ∈ older, ∀ b ∈ younger, arrival a ≤ arrival b

/-- The sequences that are running in some sense: still to be visited, visited or set aside. -/
def LoopState.active (σ : LoopState β) : List SeqId := σ.pending ++ σ.running ++ σ.runningPrefills

/-- What holds between the loops. -/
structure QueueInv (arrival : SeqId → α) (R : List SeqId) (σ : LoopState β) : Prop where
  waiting_sorted : SortedBy arrival σ.waiting
  active_before : Before arrival σ.active σ.waiting
  /-- No evicted sequence is older than one that stays. -/
  preempted : ∀ a ∈ σ.active, a ∈ R → a ∉ σ.preempted → ∀ v ∈ σ.preempted, arrival a ≤ arrival v

/-- What holds in a loop that visits the running sequences oldest first. -/
structure VisitOrder (arrival : SeqId → α) (σ : LoopState β) : Prop where
  pending_sorted : SortedBy arrival σ.pending
  running_sorted : SortedBy arrival σ.running
  running_before : Before arrival σ.running σ.pending
  prefills_before : Before arrival σ.runningPrefills σ.pending

/-! ## Turns over the running sequences -/

theorem SortedBy.concat {ids : List SeqId} {id : SeqId} (h : SortedBy arrival ids)
    (hid : ∀ a ∈ ids, arrival a ≤ arrival id) : SortedBy arrival (ids ++ [id]) := by
  rw [SortedBy, List.pairwise_append]
  exact ⟨h, List.pairwise_singleton _ _, fun a ha b hb => List.mem_singleton.mp hb ▸ hid a ha⟩

/-- Taking the sequence at the front of the queue leaves the others in order behind it. -/
theorem VisitOrder.front {id : SeqId} {rest : List SeqId} (h : VisitOrder arrival σ)
    (hpending : σ.pending = id :: rest) :
    SortedBy arrival rest ∧ SortedBy arrival (σ.running ++ [id]) ∧
      Before arrival (σ.running ++ [id]) rest ∧
      Before arrival σ.runningPrefills rest ∧
      Before arrival (σ.runningPrefills ++ [id]) rest := by
  have hsorted := h.pending_sorted
  rw [SortedBy, hpending, List.pairwise_cons] at hsorted
  have hrunning := h.running_before
  have hprefills := h.prefills_before
  rw [hpending] at hrunning hprefills
  have hsnoc {ids : List SeqId} (hids : Before arrival ids (id :: rest)) :
      Before arrival (ids ++ [id]) rest := by
    intro a ha b hb
    rcases List.mem_append.mp ha with ha | ha
    · exact hids a ha b (List.mem_cons_of_mem _ hb)
    · rw [List.mem_singleton.mp ha]
      exact hsorted.1 b hb
  refine ⟨hsorted.2, h.running_sorted.concat fun a ha => ?_, hsnoc hrunning, ?_, hsnoc hprefills⟩
  · exact hrunning a ha id List.mem_cons_self
  · exact fun a ha b hb => hprefills a ha b (List.mem_cons_of_mem _ hb)

variable [BlockSpaceManager β] {phase : Phase}

theorem SchedStep.visitOrder (hstep : SchedStep cfg now phase σ σ') (hvisits : phase.visits = true)
    (h : VisitOrder arrival σ) : VisitOrder arrival σ' := by
  cases hstep with
  | keep hpending | decode hpending | prefill hpending | orcaDecode hpending =>
    obtain ⟨hrest, hrunning, hbefore, hprefills, -⟩ := h.front hpending
    exact ⟨hrest, hrunning, hbefore, hprefills⟩
  | setAside hpending =>
    obtain ⟨hrest, -, -, -, hprefills⟩ := h.front hpending
    refine ⟨hrest, h.running_sorted, fun a ha b hb => ?_, hprefills⟩
    exact h.running_before a ha b (by simp [hpending, show b ∈ _ from hb])
  | preempt hpending =>
    -- the queue loses its last sequence
    have hsub : ∀ {b}, b ∈ _ → b ∈ σ.pending := fun hb => by
      rw [hpending]
      exact List.mem_append_left _ hb
    have hsorted := h.pending_sorted
    rw [SortedBy, hpending, List.pairwise_append] at hsorted
    exact ⟨hsorted.1, h.running_sorted, fun a ha b hb => h.running_before a ha b (hsub hb),
      fun a ha b hb => h.prefills_before a ha b (hsub hb)⟩
  | ignore | enter | requeue | takePrefills => cases hvisits

omit [BlockSpaceManager β] in
/-- A turn that only moves sequences between the lists of running ones. -/
theorem QueueInv.moveFront (h : QueueInv arrival R σ)
    (hactive : ∀ a ∈ σ'.active, a ∈ σ.active) (hwaiting : σ'.waiting = σ.waiting)
    (hpreempted : σ'.preempted = σ.preempted) : QueueInv arrival R σ' := by
  refine ⟨?_, ?_, ?_⟩
  · rw [hwaiting]
    exact h.waiting_sorted
  · rw [hwaiting]
    exact fun a ha => h.active_before a (hactive a ha)
  · rw [hpreempted]
    exact fun a ha => h.preempted a (hactive a ha)

/-- **Step lemma**: the loops over the running sequences keep the queues in order.  Evicting needs
    the order of the visits. -/
theorem SchedStep.queueInv (hstep : SchedStep cfg now phase σ σ') (hvisits : phase.visits = true)
    (horder : (∃ policy, phase = .decoding policy) → VisitOrder arrival σ)
    (h : QueueInv arrival R σ) : QueueInv arrival R σ' := by
  cases hstep with
  | keep hpending | setAside hpending | decode hpending | prefill hpending
  | orcaDecode hpending =>
    refine h.moveFront (fun a ha => ?_) rfl rfl
    simp only [LoopState.active, schedulePrefill, hpending, List.mem_append, List.mem_cons,
      List.not_mem_nil, or_false] at ha ⊢
    tauto
  | @preempt policy _ front victim rest hpending =>
    have horder := horder ⟨policy, rfl⟩
    have hvictim : victim ∈ σ.active := by simp [LoopState.active, hpending]
    have hstay : ∀ a ∈ rest ++ σ.running ++ σ.runningPrefills,
        a ∈ σ.active ∧ arrival a ≤ arrival victim := by
      -- the victim is behind everybody in the queue, and the queue behind everybody visited
      intro a ha
      have hsorted := horder.pending_sorted
      rw [SortedBy, hpending, List.pairwise_append] at hsorted
      have hlast : victim ∈ σ.pending := by simp [hpending]
      simp only [List.mem_append] at ha
      rcases ha with (ha | ha) | ha
      · exact ⟨by simp [LoopState.active, hpending, ha],
          hsorted.2.2 a ha victim (List.mem_singleton_self _)⟩
      · exact ⟨by simp [LoopState.active, ha], horder.running_before a ha victim hlast⟩
      · exact ⟨by simp [LoopState.active, ha], horder.prefills_before a ha victim hlast⟩
    refine ⟨?_, ?_, ?_⟩
    -- the victim goes to the front of `waiting`, and was running before all of it
    · rw [SortedBy, List.pairwise_cons]
      exact ⟨h.active_before victim hvictim, h.waiting_sorted⟩
    · intro a ha b hb
      obtain ⟨hold, hle⟩ := hstay a ha
      rcases List.mem_cons.mp hb with rfl | hb
      · exact hle
      · exact h.active_before a hold b hb
    · intro a ha hR hnot v hv
      obtain ⟨hold, hle⟩ := hstay a ha
      simp only [List.mem_append, List.mem_singleton, not_or] at hnot hv
      rcases hv with hv | rfl
      · exact h.preempted a hold hR hnot.1 v hv
      · exact hle
  | ignore | enter | requeue | takePrefills => cases hvisits

/-! ## Admission -/

/-- Admitting from the front of the waiting list keeps the queues in order. -/
theorem SchedStep.queueInv_of_admission (hstep : SchedStep cfg now .admission σ σ')
    (hnodup : (W ++ R).Nodup) (hloop : LoopInv cfg now W R objs₀ σ) (h : QueueInv arrival R σ) :
    QueueInv arrival R σ' := by
  have hsorted := h.waiting_sorted
  cases hstep with
  | keep _ hvisits => cases hvisits
  | ignore hwaiting =>
    rw [SortedBy, hwaiting, List.pairwise_cons] at hsorted
    refine ⟨hsorted.2, fun a ha b hb => ?_, h.preempted⟩
    exact h.active_before a ha b (by rw [hwaiting]; exact List.mem_cons_of_mem _ hb)
  | @enter _ id rest _ _ _ hwaiting =>
    rw [SortedBy, hwaiting, List.pairwise_cons] at hsorted
    have hactive : ∀ a ∈ σ.pending ++ (σ.running ++ [id]) ++ σ.runningPrefills,
        a ∈ σ.active ∨ a = id := by
      intro a ha
      simp only [LoopState.active, List.mem_append, List.mem_singleton] at ha ⊢
      tauto
    refine ⟨hsorted.2, fun a ha b hb => ?_, fun a ha hR hnot => ?_⟩
    · rcases hactive a ha with hold | rfl
      · exact h.active_before a hold b (by rw [hwaiting]; exact List.mem_cons_of_mem _ hb)
      · exact hsorted.1 b hb
    · rcases hactive a ha with hold | rfl
      · exact h.preempted a hold hR hnot
      · -- a sequence that enters was waiting all along, or was evicted
        rcases hloop.waiting a (by simp [hwaiting]) with hW | hpre
        · exact (List.disjoint_of_nodup_append hnodup hW hR).elim
        · exact absurd hpre hnot

/-! ## Whole loops -/

theorem visit_fcfs (hvisits : phase.visits = true)
    (hsteps : ReflTransGen (SchedStep cfg now phase) σ σ') (horder : VisitOrder arrival σ)
    (hqueue : QueueInv arrival R σ) :
    VisitOrder arrival σ' ∧ QueueInv arrival R σ' :=
  reflTransGen_invariant (fun σ => VisitOrder arrival σ ∧ QueueInv arrival R σ)
    (fun _ _ hstep h => ⟨hstep.visitOrder hvisits h.1, hstep.queueInv hvisits (fun _ => h.1) h.2⟩)
    hsteps ⟨horder, hqueue⟩

/-- Sarathi's loop over the unfinished prompts evicts nobody, so their order does not matter. -/
theorem prefill_queueInv (hsteps : ReflTransGen (SchedStep cfg now .prefilling) σ σ')
    (hqueue : QueueInv arrival R σ) : QueueInv arrival R σ' :=
  reflTransGen_invariant (QueueInv arrival R)
    (fun _ _ hstep => hstep.queueInv rfl fun ⟨_, h⟩ => nomatch h) hsteps hqueue

theorem admission_queueInv (hsteps : ReflTransGen (SchedStep cfg now .admission) σ σ')
    (hnodup : (W ++ R).Nodup) (hloop : LoopInv cfg now W R objs₀ σ)
    (hqueue : QueueInv arrival R σ) : QueueInv arrival R σ' := by
  have hboth := reflTransGen_invariant
    (fun σ => LoopInv cfg now W R objs₀ σ ∧ QueueInv arrival R σ)
    (fun _ _ hstep h =>
      ⟨hstep.loopInv hnodup h.1, hstep.queueInv_of_admission hnodup h.1 h.2⟩)
    hsteps ⟨hloop, hqueue⟩
  exact hboth.2

/-- An admission loop that leaves the batch empty admits nobody. -/
theorem admission_running_eq (hsteps : ReflTransGen (SchedStep cfg now .admission) σ σ')
    (hnone : σ'.scheduled = []) : σ'.running = σ.running := by
  refine reflTransGen_invariant (fun τ => τ.scheduled = [] → τ.running = σ.running) ?_ hsteps
    (fun _ => rfl) hnone
  intro τ τ' hstep heq
  cases hstep with
  | keep _ hvisits => cases hvisits
  | ignore => exact heq
  | enter => simp

/-! ## Between the loops -/

omit [LinearOrder α] [BlockSpaceManager β] in
/-- A call of `schedule` does not change arrival times. -/
theorem LoopInv.arrivalTime_eq (h : LoopInv cfg now W R objs₀ σ) (id : SeqId) :
    (σ.objs id).arrivalTime = (objs₀ id).arrivalTime := by
  by_cases hignored : id ∈ σ.ignored
  · rw [(h.ignored id hignored).2.2.2]
  · rw [h.objs_eq id hignored]

omit [LinearOrder α] [BlockSpaceManager β] in
/-- The block manager plays no part in the invariant. -/
theorem LoopInv.withManager (h : LoopInv cfg now W R objs₀ σ) (blockManager : β) :
    LoopInv cfg now W R objs₀ { σ with blockManager } :=
  h.regroup (fun _ => rfl) (fun _ ha => ha) (fun _ _ ha => ha) rfl rfl rfl rfl rfl

/-- The time stamps of the running sequences represent their arrival. -/
def Represents (arrival : SeqId → α) (objs : Heap) (ids : List SeqId) : Prop :=
  ∀ a ∈ ids, ∀ b ∈ ids, (objs a).arrivalTime ≤ (objs b).arrivalTime → arrival a ≤ arrival b

omit [BlockSpaceManager β] in
theorem sortByPriority_sortedBy {objs : Heap} {ids : List SeqId}
    (hrep : Represents arrival objs ids) : SortedBy arrival (sortByPriority now objs ids) := by
  -- the priority of a sequence is its age, and the order is by age
  have hsorted : (sortByPriority now objs ids).Pairwise
      fun a b => now - (objs b).arrivalTime ≤ now - (objs a).arrivalTime := by
    have : Std.Total fun a b => now - (objs b).arrivalTime ≤ now - (objs a).arrivalTime :=
      ⟨fun a b => le_total _ _⟩
    have : IsTrans SeqId fun a b => now - (objs b).arrivalTime ≤ now - (objs a).arrivalTime :=
      ⟨fun a b c hab hbc => hbc.trans hab⟩
    exact List.pairwise_insertionSort _ ids
  have hmem : ∀ {a}, a ∈ sortByPriority now objs ids → a ∈ ids :=
    (sortByPriority_perm now objs ids).mem_iff.mp
  refine hsorted.imp_of_mem fun {a b} ha hb hle => hrep a (hmem ha) b (hmem hb) ?_
  exact (sub_le_sub_iff_left now).mp hle

omit [BlockSpaceManager β] in
/-- The queue for the decode loop, before anything is scheduled. -/
theorem requeueRunning_fcfs (hloop : LoopInv cfg now W R objs₀ σ) (hcomplete : σ.Complete)
    (hnone : σ.scheduled = []) (hrep : Represents arrival objs₀ R) (hqueue : QueueInv arrival R σ) :
    VisitOrder arrival (σ.requeueRunning now) ∧ QueueInv arrival R (σ.requeueRunning now) := by
  -- nothing is scheduled yet, so what is running was running at the start
  have hR : ∀ a ∈ σ.running, a ∈ R := by
    intro a ha
    rcases hloop.active a (.inr (.inl ha)) with h | h
    · simp [hnone, scheduledIds] at h
    · exact h.1
  have hrep' : Represents arrival σ.objs σ.running := by
    intro a ha b hb hle
    rw [hloop.arrivalTime_eq, hloop.arrivalTime_eq] at hle
    exact hrep a (hR a ha) b (hR b hb) hle
  constructor
  · refine ⟨sortByPriority_sortedBy hrep', List.Pairwise.nil, ?_, ?_⟩ <;> intro a ha
    · cases ha
    change a ∈ σ.runningPrefills at ha
    rw [hcomplete.runningPrefills] at ha
    cases ha
  · refine hqueue.moveFront (fun a ha => ?_) rfl rfl
    simp only [LoopState.active, LoopState.requeueRunning, List.mem_append, List.not_mem_nil,
      or_false, (sortByPriority_perm now σ.objs σ.running).mem_iff] at ha ⊢
    tauto

/-! ## The policies -/

/-- Simple chunking after an admission loop that has admitted nobody: the decode loop visits the
    sequences in the order in which the prefill loop has visited them. -/
theorem passedOn_queueInv (hadm : ReflTransGen (SchedStep cfg now .admission) σ σ')
    (hnone : σ'.scheduled = []) (hσ' : σ'.Complete) (horder : VisitOrder arrival σ)
    (hqueue : QueueInv arrival R σ') {τ : LoopState β}
    (hdecode : visitPending (decodeStep .keep) { σ' with pending := σ'.running, running := [] } =
      .ok τ) : QueueInv arrival R τ := by
  have horder' : VisitOrder arrival { σ' with pending := σ'.running, running := [] } := by
    refine ⟨?_, List.Pairwise.nil, nofun, fun a ha => ?_⟩
    · change SortedBy arrival σ'.running
      rw [admission_running_eq hadm hnone]
      exact horder.running_sorted
    · change a ∈ σ'.runningPrefills at ha
      rw [hσ'.runningPrefills] at ha
      cases ha
  have hqueue' : QueueInv arrival R { σ' with pending := σ'.running, running := [] } := by
    refine hqueue.moveFront (fun a ha => ?_) rfl rfl
    simp only [LoopState.active, List.mem_append, List.not_mem_nil, or_false] at ha ⊢
    tauto
  exact (visit_fcfs rfl (decodeLoop_steps cfg now hdecode).1 horder' hqueue').2

section Policies

variable (hnodup : (W ++ R).Nodup) (hrep : Represents arrival objs₀ R)

include hnodup hrep

theorem vllmSchedule_queueInv {maxNumBatchedTokens : Nat} (hσ : σ.Initial)
    (hloop : LoopInv cfg now W R objs₀ σ) (hqueue : QueueInv arrival R σ)
    (h : vllmSchedule cfg maxNumBatchedTokens now σ = .ok σ') : QueueInv arrival R σ' := by
  obtain ⟨σ₁, hadm, hrest⟩ := vllmSchedule_eq_ok h
  have hsteps := vllmAdmission_steps hadm
  have hloop₀ := hloop.withManager (BlockSpaceManager.clearPromisedBlocks σ.blockManager)
  have hloop₁ := (SchedSteps.of_phase hsteps).loopInv hnodup hloop₀
  have hqueue₁ := admission_queueInv hsteps hnodup hloop₀
    (hqueue.moveFront (fun _ ha => ha) rfl rfl)
  have hcomplete : σ₁.Complete := Complete.of_admission hsteps ⟨hσ.pending, hσ.runningPrefills⟩
  rcases hrest with rfl | ⟨hnone, -, hdecode⟩
  · exact hqueue₁
  · obtain ⟨horder₂, hqueue₂⟩ := requeueRunning_fcfs hloop₁ hcomplete hnone hrep hqueue₁
    exact (visit_fcfs rfl (decodeLoop_steps cfg now hdecode).1 horder₂ hqueue₂).2

theorem sarathiSchedule_queueInv {chunks : ChunkSchedule} (hσ : σ.Initial)
    (hloop : LoopInv cfg now W R objs₀ σ) (hqueue : QueueInv arrival R σ)
    (h : sarathiSchedule cfg chunks now σ = .ok σ') : QueueInv arrival R σ' := by
  obtain ⟨σ₁, hdecode, h⟩ := seq_eq_ok.mp h
  obtain ⟨σ₂, hprefill, h⟩ := seq_eq_ok.mp h
  have hloop₀ := hloop.withManager (BlockSpaceManager.clearPromisedBlocks σ.blockManager)
  obtain ⟨hsteps, -⟩ := sarathiLoops_steps cfg
    ⟨⟨by exact hσ.pending, by exact hσ.runningPrefills⟩, by exact hσ.scheduled⟩ hdecode hprefill
  have hdecode := decodeLoop_steps cfg now hdecode
  have hprefill := sarathiPrefillLoop_steps cfg now hprefill
  have hadm := sarathiAdmission_steps h
  obtain ⟨horder₁, hqueue₁⟩ := requeueRunning_fcfs hloop₀ ⟨hσ.pending, hσ.runningPrefills⟩
    hσ.scheduled hrep (hqueue.moveFront (fun _ ha => ha) rfl rfl)
  have hqueue₂ := (visit_fcfs rfl hdecode.1 horder₁ hqueue₁).2
  have hqueue₃ := prefill_queueInv hprefill.1 (hqueue₂.moveFront (fun a ha => by
    simp only [LoopState.active, hdecode.2, List.mem_append, List.not_mem_nil, or_false,
      false_or] at ha ⊢
    tauto) rfl rfl)
  exact admission_queueInv hadm hnodup (hsteps.loopInv hnodup hloop₀) hqueue₃

theorem SimpleRun.queueInv {chunkSize : Nat} (hσ : σ.Initial)
    (hloop : LoopInv cfg now W R objs₀ σ) (hqueue : QueueInv arrival R σ)
    (h : SimpleRun cfg chunkSize now σ σ') : QueueInv arrival R σ' := by
  obtain ⟨horder₁, hqueue₁⟩ := requeueRunning_fcfs hloop hσ.toComplete hσ.scheduled hrep hqueue
  -- the loop over the running prompts, where the turn of the prefills starts
  have hfirst : ∀ {σ₂}, visitPending (simplePrefillStep chunkSize) (σ.requeueRunning now) = .ok σ₂ →
      VisitOrder arrival σ₂ ∧ QueueInv arrival R σ₂ ∧ LoopInv cfg now W R objs₀ σ₂ := by
    intro σ₂ hprefill
    have hsteps := (simplePrefillPhase_steps cfg hσ hprefill).1
    obtain ⟨horder₂, hqueue₂⟩ :=
      visit_fcfs rfl (simplePrefillLoop_steps cfg now hprefill).1 horder₁ hqueue₁
    exact ⟨horder₂, hqueue₂, hsteps.loopInv hnodup hloop⟩
  cases h with
  | decodes hdecode => exact (visit_fcfs rfl (decodeLoop_steps cfg now hdecode).1 horder₁ hqueue₁).2
  | prefills hprefill => exact (hfirst hprefill).2.1
  | admits hprefill hadm =>
    obtain ⟨-, hqueue₂, hloop₂⟩ := hfirst hprefill
    exact admission_queueInv (simpleAdmission_steps hadm) hnodup hloop₂ hqueue₂
  | passes hprefill hadm hnone _ hdecode =>
    obtain ⟨horder₂, hqueue₂, hloop₂⟩ := hfirst hprefill
    have hcomplete₂ := (simplePrefillPhase_steps cfg hσ hprefill).2
    have hadm := simpleAdmission_steps hadm
    have hqueue₃ := admission_queueInv hadm hnodup hloop₂ hqueue₂
    exact passedOn_queueInv hadm hnone (Complete.of_admission hadm hcomplete₂) horder₂ hqueue₃
      hdecode

end Policies

/-- The policies that visit the running sequences oldest first and evict the youngest. -/
def Policy.evictsYoungest : Policy → Bool
  | .vllm _ | .sarathi _ | .simpleChunking _ => true
  | .orca | .fasterTransformer => false

/-- A call of one of these policies keeps the queues in order. -/
theorem runPolicy_queueInv {turn turn' : Turn} (hpolicy : cfg.policy.evictsYoungest = true)
    (hnodup : (W ++ R).Nodup) (hrep : Represents arrival objs₀ R) (hσ : σ.Initial)
    (hloop : LoopInv cfg now W R objs₀ σ) (hqueue : QueueInv arrival R σ)
    (h : runPolicy cfg now turn σ = .ok (σ', turn')) : QueueInv arrival R σ' := by
  cases runPolicy_run h with
  | vllm _ h => exact vllmSchedule_queueInv hnodup hrep hσ hloop hqueue h
  | sarathi _ h => exact sarathiSchedule_queueInv hnodup hrep hσ hloop hqueue h
  | simpleChunking _ h => exact h.queueInv hnodup hrep hσ hloop hqueue
  | orca hcfg => rcases hcfg with hcfg | hcfg <;> simp [hcfg, Policy.evictsYoungest] at hpolicy

/-- No sequence that stays in `running` is younger than one that is evicted. -/
def EvictsYoungest (arrival : SeqId → α) (s s' : SchedulerState β) (out : SchedulerOutputs) :
    Prop :=
  ∀ v ∈ out.preemptedSeqIds, ∀ a ∈ s.running, a ∈ s'.running → a ∉ out.preemptedSeqIds →
    arrival a ≤ arrival v

/-- **Step lemma** for a call of `schedule`. -/
theorem schedule_fcfs {objs objs' : Heap} {s s' : SchedulerState β} {out : SchedulerOutputs}
    (hpolicy : cfg.policy.evictsYoungest = true) (hnodup : (s.waiting ++ s.running).Nodup)
    (hrep : Represents arrival objs s.running) (hsorted : SortedBy arrival s.waiting)
    (hbefore : Before arrival s.running s.waiting)
    (h : schedule cfg now objs s = .ok (objs', s', out)) :
    SortedBy arrival s'.waiting ∧ Before arrival s'.running s'.waiting ∧
      EvictsYoungest arrival s s' out := by
  rcases schedule_eq_ok h with ⟨-, rfl, rfl⟩ | ⟨σ, turn, hrun, -, rfl, rfl⟩
  · exact ⟨hsorted, hbefore, nofun⟩
  · have hσ : (s.start objs).Initial := ⟨⟨rfl, rfl⟩, rfl⟩
    have hloop : LoopInv cfg now s.waiting s.running objs (s.start objs) :=
      LoopInv.start cfg now objs s s.blockManager
    have hqueue : QueueInv arrival s.running (s.start objs) := by
      refine ⟨hsorted, fun a ha => hbefore a ?_, fun _ _ _ _ => nofun⟩
      simpa [LoopState.active, SchedulerState.start] using ha
    have hqueue' := runPolicy_queueInv hpolicy hnodup hrep hσ hloop hqueue hrun
    have hactive : ∀ a ∈ σ.running, a ∈ σ.active := fun a ha => by simp [LoopState.active, ha]
    exact ⟨hqueue'.waiting_sorted, fun a ha => hqueue'.active_before a (hactive a ha),
      fun v hv a hR ha hnot => hqueue'.preempted a (hactive a ha) hR hnot v hv⟩

/-! ## Runs of calls -/

/-- Added sequences have new ids and are no older than those before them.  Their time stamps are
    ordered as their arrival. -/
def inArrivalOrder (arrival : SeqId → α) (r : SchedulerRun β) (event : SchedulerEvent β) : Bool :=
  distinctIds r event &&
  match event with
  | .addSeq seq => r.added.all fun id => decide (arrival id ≤ arrival seq.seqId) &&
      (!decide (seq.arrivalTime ≤ (r.objs id).arrivalTime) ||
        decide (arrival seq.seqId ≤ arrival id))
  | _ => true

/-- Invariant of the runs. -/
structure FcfsInv (arrival : SeqId → α) (r : SchedulerRun β) : Prop where
  represents : Represents arrival r.objs r.added
  waiting_sorted : SortedBy arrival r.scheduler.waiting
  running_before : Before arrival r.scheduler.running r.scheduler.waiting

section Runs

variable {r r' : SchedulerRun β}

omit [LinearOrder α] [BlockSpaceManager β] in
/-- Sequences of the scheduler's lists were added. -/
theorem RunInv.mem_added (h : RunInv cfg r) {id : SeqId}
    (hid : id ∈ r.scheduler.waiting ∨ id ∈ r.scheduler.running) : id ∈ r.added := by
  rw [← h.partition.mem_iff]
  simp only [List.mem_append]
  tauto

omit [BlockSpaceManager β] in
theorem Represents.congr {objs objs' : Heap} {ids : List SeqId} (h : Represents arrival objs ids)
    (heq : ∀ id ∈ ids, (objs' id).arrivalTime = (objs id).arrivalTime) :
    Represents arrival objs' ids := by
  intro a ha b hb hle
  rw [heq a ha, heq b hb] at hle
  exact h a ha b hb hle

theorem FcfsInv.schedule (hpolicy : cfg.policy.evictsYoungest = true) (hrun : RunInv cfg r)
    (h : FcfsInv arrival r) {objs' : Heap} {s' : SchedulerState β} {out : SchedulerOutputs}
    (hschedule : Scheduler.schedule cfg now r.objs r.scheduler = .ok (objs', s', out)) :
    Represents arrival objs' r.added ∧ SortedBy arrival s'.waiting ∧
      Before arrival s'.running s'.waiting ∧ EvictsYoungest arrival r.scheduler s' out := by
  have hspec := schedule_spec hrun.nodup hschedule
  refine ⟨h.represents.congr fun id _ => ?_, schedule_fcfs hpolicy hrun.nodup ?_ h.waiting_sorted
    h.running_before hschedule⟩
  -- a call of `schedule` changes the status of a sequence at most
  · by_cases hignored : id ∈ out.ignoredSeqIds
    · rw [(hspec.ignored id hignored).2.2.2]
    · rw [hspec.objs_eq id hignored]
  · exact fun a ha b hb => h.represents a (hrun.mem_added (.inr ha)) b (hrun.mem_added (.inr hb))

/-- A sequence that arrives last goes to the end of the queue. -/
theorem FcfsInv.addSeq {seq : Sequence} (hrun : RunInv cfg r) (h : FcfsInv arrival r)
    (hguard : inArrivalOrder arrival r (.addSeq seq) = true)
    (hexec : (SchedulerEvent.addSeq seq).exec cfg r = .ok r') : FcfsInv arrival r' := by
  cases hexec
  simp only [inArrivalOrder, distinctIds, Bool.and_eq_true, decide_eq_true_eq, List.all_eq_true,
    Bool.or_eq_true, Bool.not_eq_true', decide_eq_false_iff_not] at hguard
  obtain ⟨hnew, hlast⟩ := hguard
  refine ⟨?_, ?_, ?_⟩
  · -- only the new object has changed
    have hold : Represents arrival (Function.update r.objs seq.seqId seq) r.added :=
      h.represents.congr fun id hid => by
        rw [Function.update_of_ne (ne_of_mem_of_not_mem hid hnew)]
    intro a ha b hb hle
    simp only [List.mem_append, List.mem_singleton] at ha hb
    dsimp only at hle
    rcases ha with ha | rfl <;> rcases hb with hb | rfl
    · exact hold a ha b hb hle
    · exact (hlast a ha).1
    · rw [Function.update_self, Function.update_of_ne (ne_of_mem_of_not_mem hb hnew)] at hle
      exact (hlast b hb).2.resolve_left (not_not_intro hle)
    · exact le_rfl
  · exact h.waiting_sorted.concat fun a ha => (hlast a (hrun.mem_added (.inl ha))).1
  · intro a ha b hb
    rcases List.mem_append.mp hb with hb | hb
    · exact h.running_before a ha b hb
    · rw [List.mem_singleton.mp hb]
      exact (hlast a (hrun.mem_added (.inr ha))).1

/-- **Step lemma**: every event in order of arrival keeps the queues in order. -/
theorem FcfsInv.exec {event : SchedulerEvent β} (hpolicy : cfg.policy.evictsYoungest = true)
    (hrun : RunInv cfg r) (h : FcfsInv arrival r) (hguard : inArrivalOrder arrival r event = true)
    (hexec : event.exec cfg r = .ok r') : FcfsInv arrival r' := by
  cases event with
  | addSeq seq => exact h.addSeq hrun hguard hexec
  | schedule now =>
    obtain ⟨⟨objs, s, out⟩, hschedule, hrest⟩ := seq_eq_ok.mp hexec
    cases hrest
    obtain ⟨hrep, hsorted, hbefore, -⟩ := h.schedule hpolicy hrun hschedule
    exact ⟨hrep, hsorted, hbefore⟩
  | onStepCompleted =>
    cases hexec
    exact ⟨h.represents, h.waiting_sorted,
      fun a ha => h.running_before a (List.mem_filter.mp ha).1⟩
  | environment objs blockManager =>
    cases hexec
    exact ⟨h.represents, h.waiting_sorted, h.running_before⟩

/-- **First come, first served**: for the vLLM, Sarathi and simple chunking policies, every block
    manager and every run that adds the sequences in order of their arrival, `waiting` is sorted
    by arrival, every running sequence arrived no later than every waiting one, and an iteration
    evicts no sequence that arrived before one that stays. -/
theorem first_come_first_served (arrival : SeqId → α) (hpolicy : cfg.policy.evictsYoungest = true)
    (hreach : SchedulerReaches cfg (fun r event => inArrivalOrder arrival r event = true) r) :
    SortedBy arrival r.scheduler.waiting ∧
    Before arrival r.scheduler.running r.scheduler.waiting ∧
    ∀ now objs' s' out, Scheduler.schedule cfg now r.objs r.scheduler = .ok (objs', s', out) →
      EvictsYoungest arrival r.scheduler s' out := by
  have hguard : ∀ (r : SchedulerRun β) event, inArrivalOrder arrival r event = true →
      distinctIds r event = true := fun r event h => (Bool.and_eq_true_iff.mp h).1
  -- the two invariants are carried together
  have hboth : RunInv cfg r ∧ FcfsInv arrival r := by
    apply hreach.invariant (fun r => RunInv cfg r ∧ FcfsInv arrival r)
    · rintro r ⟨objs, blockManager, rfl⟩
      exact ⟨.start cfg objs blockManager, nofun, List.Pairwise.nil, nofun⟩
    · intro r event r' h hg hexec
      exact ⟨h.1.exec (hguard r event hg) hexec, h.2.exec hpolicy h.1 hg hexec⟩
  obtain ⟨hrun, hfcfs⟩ := hboth
  refine ⟨hfcfs.waiting_sorted, hfcfs.running_before, fun now objs' s' out hschedule => ?_⟩
  exact (hfcfs.schedule hpolicy hrun hschedule).2.2.2

end Runs

/-- Two prompts of one block each; with no block left, the next token of the first one evicts the
    second, while a third one waits. -/
def evictingRun : List (SchedulerEvent VAttentionBlockManager) :=
  let seq (id : SeqId) (arrivalTime : Time) : Sequence :=
    .new id [] [1, 2] 2 none arrivalTime {}
  let decoding : Heap := fun id =>
    { seq id 0 with
      status := .paused, promptTokensProcessed := 2, promptProcessingFinished := true }
  let manager (freeBlocks : Nat) (activeRequests : List SeqId) : VAttentionBlockManager :=
    { VAttentionBlockManager.new 2 2 with freeBlocks, activeRequests }
  [.addSeq (seq 0 0), .addSeq (seq 1 1), .addSeq (seq 2 2),
    .environment (fun id => seq id 0) (manager 2 []), .schedule 9, .onStepCompleted,
    .schedule 9, .onStepCompleted, .environment decoding (manager 0 [0, 1])]

theorem evictingRun_first_come_first_served :
    ∃ r objs' s' out,
      SchedulerRun.run smallSarathi evictingRun
        (.start (fun id => .new id [] [] 1 none 0 {}) (.new 2 2)) = .ok r ∧
      Scheduler.schedule smallSarathi 9 r.objs r.scheduler = .ok (objs', s', out) ∧
      (s'.waiting, s'.running, out.preemptedSeqIds) = ([1, 2], [0], [1]) ∧
      SortedBy (fun id => id) r.scheduler.waiting ∧
      EvictsYoungest (fun id => id) r.scheduler s' out := by
  have hstate : ((SchedulerRun.run smallSarathi evictingRun
      (.start (fun id => .new id [] [] 1 none 0 {}) (.new 2 2))).bind fun r =>
        (Scheduler.schedule smallSarathi 9 r.objs r.scheduler).map fun (_, s', out) =>
          (s'.waiting, s'.running, out.preemptedSeqIds)) = .ok ([1, 2], [0], [1]) := by rfl
  obtain ⟨r, hrun, hrest⟩ := seq_eq_ok.mp hstate
  obtain ⟨⟨objs', s', out⟩, hschedule, hend⟩ := map_eq_ok.mp hrest
  obtain ⟨hsorted, -, hyoungest⟩ := first_come_first_served (r := r) (fun id => id) rfl
    (Reaches.foldlM (fun _ _ => id) (.init ⟨_, _, rfl⟩) (by decide +kernel) hrun)
  exact ⟨r, objs', s', out, hrun, hschedule, hend, hsorted, hyoungest 9 objs' s' out hschedule⟩

end VAttention.Scheduler
