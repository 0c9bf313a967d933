import Mathlib.Data.List.Count
import VAttention.Scheduler.Steps

/-!
# What a call of `schedule` can do

Every sequence is in exactly one list of the scheduler, and the lists of the
`SchedulerOutputs` say how it moved.  `LoopInv` is the invariant of the loops, relative to
the lists and objects at the start of the call; `schedule_spec` is what it says at the end.
-/

namespace VAttention.Scheduler

open VAttention.Core VAttention.Lib Relation

variable {β : Type} {cfg : SchedulerConfig} {now : Time} {σ σ' : LoopState β} {phase : Phase}

/-! ## Where a sequence is -/

/-- How often a sequence occurs in the lists of the loop. -/
def LoopState.occurrences (σ : LoopState β) (id : SeqId) : Nat :=
  σ.waiting.count id + σ.pending.count id + σ.running.count id + σ.runningPrefills.count id +
    σ.ignored.count id

/-- A step moves sequences between the lists. -/
theorem SchedStep.occurrences_eq [BlockSpaceManager β] (h : SchedStep cfg now phase σ σ')
    (id : SeqId) :
    σ'.occurrences id = σ.occurrences id := by
  cases h with
  | keep hpending | setAside hpending | decode hpending | prefill hpending
  | orcaDecode hpending | preempt hpending =>
    simp only [LoopState.occurrences, schedulePrefill, hpending, List.count_append,
      List.count_cons, List.count_nil]
    omega
  | ignore hwaiting | enter hwaiting =>
    simp only [LoopState.occurrences, hwaiting, List.count_append, List.count_cons,
      List.count_nil]
    omega
  | requeue horder hpending =>
    simp only [LoopState.occurrences, hpending, horder.count_eq, List.count_nil]
    omega
  | takePrefills hpending =>
    simp only [LoopState.occurrences, hpending, List.count_nil]
    omega

/-! ## The invariant -/

/-- Invariant of the loops of a `_schedule` call that started with the lists `W` (waiting)
    and `R` (running) and the objects `objs₀`. -/
structure LoopInv (cfg : SchedulerConfig) (now : Time) (W R : List SeqId) (objs₀ : Heap)
    (σ : LoopState β) : Prop where
  occurrences : ∀ id, σ.occurrences id = (W ++ R).count id
  objs_eq : ∀ id, id ∉ σ.ignored → σ.objs id = objs₀ id
  ignored : ∀ id ∈ σ.ignored, (objs₀ id).status = .waiting ∧ (objs₀ id).arrivalTime ≤ now ∧
    cfg.maxModelLen < (objs₀ id).getLen ∧
    σ.objs id = { objs₀ id with status := .finishedIgnored }
  scheduled_nodup : (scheduledIds σ.scheduled).Nodup
  scheduled_running : ∀ id ∈ scheduledIds σ.scheduled, id ∈ σ.running
  /-- Only sequences that were running are evicted. -/
  preempted : ∀ id ∈ σ.preempted, id ∈ R ∧ (objs₀ id).isExecuting = true
  preempted_nodup : σ.preempted.Nodup
  waiting : ∀ id ∈ σ.waiting, id ∈ W ∨ id ∈ σ.preempted
  /-- What is not waiting is in the batch, or was running all along. -/
  active : ∀ id, id ∈ σ.pending ∨ id ∈ σ.running ∨ id ∈ σ.runningPrefills →
    id ∈ scheduledIds σ.scheduled ∨ id ∈ R ∧ id ∉ σ.preempted
  /-- A sequence of the batch was running all along, or passed the length check. -/
  admitted : ∀ m ∈ σ.scheduled,
    m.seqId ∈ R ∧ m.seqId ∉ σ.preempted ∨ (objs₀ m.seqId).getLen ≤ cfg.maxModelLen
  /-- A processed prompt gets no chunk beyond its end. -/
  chunk : ∀ m ∈ σ.scheduled, (objs₀ m.seqId).promptProcessingFinished = true →
    m.promptChunkLen ≤ max 0 (remainingPrompt (objs₀ m.seqId))

section Invariant

variable {W R : List SeqId} {objs₀ : Heap}

theorem LoopInv.occurrences_le (h : LoopInv cfg now W R objs₀ σ) (hnodup : (W ++ R).Nodup)
    (id : SeqId) : σ.occurrences id ≤ 1 := by
  rw [h.occurrences]
  exact List.nodup_iff_count_le_one.mp hnodup id

/-- No sequence is both at the front of the queue and elsewhere. -/
theorem LoopInv.of_pending (h : LoopInv cfg now W R objs₀ σ) (hnodup : (W ++ R).Nodup)
    {id : SeqId} (hid : id ∈ σ.pending) :
    id ∉ σ.running ∧ id ∉ σ.ignored ∧ id ∉ scheduledIds σ.scheduled ∧ id ∈ R ∧
      id ∉ σ.preempted := by
  have hle := h.occurrences_le hnodup id
  have hpos := List.count_pos_iff.mpr hid
  unfold LoopState.occurrences at hle
  -- it occurs once, and that is in the queue
  have hrunning : id ∉ σ.running := by
    rw [← List.count_eq_zero]
    omega
  have hscheduled : id ∉ scheduledIds σ.scheduled := fun hmem =>
    hrunning (h.scheduled_running id hmem)
  refine ⟨hrunning, ?_, hscheduled, (h.active id (.inl hid)).resolve_left hscheduled⟩
  rw [← List.count_eq_zero]
  omega

theorem LoopInv.of_waiting (h : LoopInv cfg now W R objs₀ σ) (hnodup : (W ++ R).Nodup)
    {id : SeqId} (hid : id ∈ σ.waiting) :
    id ∉ σ.running ∧ id ∉ σ.ignored ∧ id ∉ scheduledIds σ.scheduled := by
  have hle := h.occurrences_le hnodup id
  have hpos := List.count_pos_iff.mpr hid
  unfold LoopState.occurrences at hle
  have hrunning : id ∉ σ.running := by
    rw [← List.count_eq_zero]
    omega
  refine ⟨hrunning, ?_, fun hmem => hrunning (h.scheduled_running id hmem)⟩
  rw [← List.count_eq_zero]
  omega

/-- A sequence that is not yet in the batch joins it, whatever happens to the block manager and
    the token counter. -/
theorem LoopInv.joinBatch (h : LoopInv cfg now W R objs₀ σ) {id : SeqId} {chunkLen : Int}
    (hnew : id ∉ scheduledIds σ.scheduled)
    (hadmitted : id ∈ R ∧ id ∉ σ.preempted ∨ (objs₀ id).getLen ≤ cfg.maxModelLen)
    (hchunk : (objs₀ id).promptProcessingFinished = true →
      chunkLen ≤ max 0 (remainingPrompt (objs₀ id)))
    (hoccurrences : ∀ id, σ'.occurrences id = σ.occurrences id)
    (hwaiting : ∀ a ∈ σ'.waiting, a ∈ σ.waiting)
    (hqueues : ∀ a, a ∈ σ'.pending ∨ a ∈ σ'.runningPrefills →
      a ∈ σ.pending ∨ a ∈ σ.runningPrefills)
    (hobjs : σ'.objs = σ.objs) (hrunning : σ'.running = σ.running ++ [id])
    (hignored : σ'.ignored = σ.ignored) (hpreempted : σ'.preempted = σ.preempted)
    (hscheduled : σ'.scheduled = σ.scheduled ++ [⟨id, chunkLen⟩]) :
    LoopInv cfg now W R objs₀ σ' := by
  have hids : scheduledIds σ'.scheduled = scheduledIds σ.scheduled ++ [id] := by
    simp [scheduledIds, hscheduled]
  constructor
  case occurrences => exact fun a => (hoccurrences a).trans (h.occurrences a)
  case objs_eq => simpa only [hobjs, hignored] using h.objs_eq
  case ignored => simpa only [hobjs, hignored] using h.ignored
  case scheduled_nodup =>
    rw [hids, ← List.concat_eq_append]
    exact h.scheduled_nodup.concat hnew
  case scheduled_running =>
    intro a ha
    rw [hids, List.mem_append] at ha
    rw [hrunning, List.mem_append]
    exact ha.imp_left (h.scheduled_running a)
  case preempted => simpa only [hpreempted] using h.preempted
  case preempted_nodup => simpa only [hpreempted] using h.preempted_nodup
  case waiting =>
    rw [hpreempted]
    exact fun a ha => h.waiting a (hwaiting a ha)
  case active =>
    intro a ha
    rw [hids, List.mem_append, List.mem_singleton, hpreempted]
    by_cases hid : a = id
    · exact .inl (.inr hid)
    · have hold : a ∈ σ.pending ∨ a ∈ σ.running ∨ a ∈ σ.runningPrefills := by
        rw [hrunning, List.mem_append, List.mem_singleton] at ha
        rcases ha with ha | (ha | ha) | ha
        · exact (hqueues a (.inl ha)).imp_right .inr
        · exact .inr (.inl ha)
        · exact absurd ha hid
        · exact (hqueues a (.inr ha)).imp_right .inr
      exact (h.active a hold).imp_left .inl
  case admitted =>
    intro m hm
    rw [hscheduled, List.mem_append, List.mem_singleton] at hm
    rw [hpreempted]
    rcases hm with hm | rfl
    · exact h.admitted m hm
    · exact hadmitted
  case chunk =>
    intro m hm
    rw [hscheduled, List.mem_append, List.mem_singleton] at hm
    rcases hm with hm | rfl
    · exact h.chunk m hm
    · exact hchunk

/-- The sequence at the front of the queue joins the batch. -/
theorem LoopInv.schedulePending (h : LoopInv cfg now W R objs₀ σ) (hnodup : (W ++ R).Nodup)
    {id : SeqId} {rest : List SeqId} {chunkLen : Int} (hpending : σ.pending = id :: rest)
    (hchunk : (objs₀ id).promptProcessingFinished = true →
      chunkLen ≤ max 0 (remainingPrompt (objs₀ id)))
    (hoccurrences : ∀ id, σ'.occurrences id = σ.occurrences id)
    (hobjs : σ'.objs = σ.objs) (hwaiting : σ'.waiting = σ.waiting) (hpending' : σ'.pending = rest)
    (hrunning : σ'.running = σ.running ++ [id]) (hprefills : σ'.runningPrefills = σ.runningPrefills)
    (hignored : σ'.ignored = σ.ignored) (hpreempted : σ'.preempted = σ.preempted)
    (hscheduled : σ'.scheduled = σ.scheduled ++ [⟨id, chunkLen⟩]) :
    LoopInv cfg now W R objs₀ σ' := by
  have hmem : id ∈ σ.pending := by simp [hpending]
  obtain ⟨-, -, hnew, hR, hpre⟩ := h.of_pending hnodup hmem
  refine h.joinBatch hnew (.inl ⟨hR, hpre⟩) hchunk hoccurrences (fun a ha => hwaiting ▸ ha)
    (fun a ha => ?_) hobjs hrunning hignored hpreempted hscheduled
  rw [hpending', hprefills] at ha
  rw [hpending]
  exact ha.imp_left (List.mem_cons_of_mem id)

/-- Moving sequences between the lists of active ones keeps the invariant. -/
theorem LoopInv.regroup (h : LoopInv cfg now W R objs₀ σ)
    (hoccurrences : ∀ id, σ'.occurrences id = σ.occurrences id)
    (hactive : ∀ id, id ∈ σ'.pending ∨ id ∈ σ'.running ∨ id ∈ σ'.runningPrefills →
      id ∈ σ.pending ∨ id ∈ σ.running ∨ id ∈ σ.runningPrefills)
    (hrunning : ∀ id ∈ scheduledIds σ.scheduled, id ∈ σ.running → id ∈ σ'.running)
    (hobjs : σ'.objs = σ.objs) (hwaiting : σ'.waiting = σ.waiting)
    (hignored : σ'.ignored = σ.ignored) (hpreempted : σ'.preempted = σ.preempted)
    (hscheduled : σ'.scheduled = σ.scheduled) : LoopInv cfg now W R objs₀ σ' := by
  constructor
  case occurrences => exact fun id => (hoccurrences id).trans (h.occurrences id)
  case objs_eq => simpa only [hobjs, hignored] using h.objs_eq
  case ignored => simpa only [hobjs, hignored] using h.ignored
  case scheduled_nodup => simpa only [hscheduled] using h.scheduled_nodup
  case scheduled_running =>
    rw [hscheduled]
    exact fun id hid => hrunning id hid (h.scheduled_running id hid)
  case preempted => simpa only [hpreempted] using h.preempted
  case preempted_nodup => simpa only [hpreempted] using h.preempted_nodup
  case waiting => simpa only [hwaiting, hpreempted] using h.waiting
  case active =>
    rw [hscheduled, hpreempted]
    exact fun id hid => h.active id (hactive id hid)
  case admitted => simpa only [hscheduled, hpreempted] using h.admitted
  case chunk => simpa only [hscheduled] using h.chunk

theorem LoopInv.preemptLast (h : LoopInv cfg now W R objs₀ σ) (hnodup : (W ++ R).Nodup)
    {victim : SeqId} {rest : List SeqId} (hpending : σ.pending = rest ++ [victim])
    (hexecuting : (σ.objs victim).isExecuting = true)
    (hoccurrences : ∀ id, σ'.occurrences id = σ.occurrences id)
    (hobjs : σ'.objs = σ.objs) (hwaiting : σ'.waiting = victim :: σ.waiting)
    (hpending' : σ'.pending = rest) (hrunning : σ'.running = σ.running)
    (hprefills : σ'.runningPrefills = σ.runningPrefills) (hignored : σ'.ignored = σ.ignored)
    (hpreempted : σ'.preempted = σ.preempted ++ [victim])
    (hscheduled : σ'.scheduled = σ.scheduled) : LoopInv cfg now W R objs₀ σ' := by
  have hmem : victim ∈ σ.pending := by simp [hpending]
  obtain ⟨hnotrunning, hnotignored, hnew, hR, hpre⟩ := h.of_pending hnodup hmem
  -- the victim is in the waiting list now, hence in no other
  have hgone : victim ∉ rest ∧ victim ∉ σ.runningPrefills := by
    have hle := h.occurrences_le hnodup victim
    simp only [LoopState.occurrences, hpending, List.count_append, List.count_singleton_self] at hle
    constructor <;> rw [← List.count_eq_zero] <;> omega
  constructor
  case occurrences => exact fun id => (hoccurrences id).trans (h.occurrences id)
  case objs_eq => simpa only [hobjs, hignored] using h.objs_eq
  case ignored => simpa only [hobjs, hignored] using h.ignored
  case scheduled_nodup => simpa only [hscheduled] using h.scheduled_nodup
  case scheduled_running => simpa only [hscheduled, hrunning] using h.scheduled_running
  case preempted =>
    intro id hid
    rw [hpreempted, List.mem_append, List.mem_singleton] at hid
    rcases hid with hid | rfl
    · exact h.preempted id hid
    · exact ⟨hR, h.objs_eq id hnotignored ▸ hexecuting⟩
  case preempted_nodup =>
    rw [hpreempted, ← List.concat_eq_append]
    exact h.preempted_nodup.concat hpre
  case waiting =>
    intro id hid
    rw [hwaiting, List.mem_cons] at hid
    rw [hpreempted, List.mem_append, List.mem_singleton]
    rcases hid with rfl | hid
    · exact .inr (.inr rfl)
    · exact (h.waiting id hid).imp_right .inl
  case active =>
    intro id hid
    rw [hpending', hrunning, hprefills] at hid
    -- the victim has left the active lists
    have hne : id ≠ victim := by
      rintro rfl
      rcases hid with hid | hid | hid
      · exact hgone.1 hid
      · exact hnotrunning hid
      · exact hgone.2 hid
    have hold : id ∈ σ.pending ∨ id ∈ σ.running ∨ id ∈ σ.runningPrefills := by
      rw [hpending, List.mem_append]
      exact hid.imp_left .inl
    rw [hscheduled, hpreempted, List.mem_append, List.mem_singleton]
    exact (h.active id hold).imp_right fun ⟨hidR, hidpre⟩ => ⟨hidR, by simp [hidpre, hne]⟩
  case admitted =>
    intro m hm
    rw [hscheduled] at hm
    have hne : m.seqId ≠ victim := by
      rintro rfl
      exact hnew (List.mem_map_of_mem hm)
    rw [hpreempted, List.mem_append, List.mem_singleton]
    exact (h.admitted m hm).imp_left fun ⟨hmR, hmpre⟩ => ⟨hmR, by simp [hmpre, hne]⟩
  case chunk => simpa only [hscheduled] using h.chunk

/-- Dropping an over-long sequence from the head of the waiting list. -/
theorem LoopInv.ignoreFirst (h : LoopInv cfg now W R objs₀ σ) (hnodup : (W ++ R).Nodup)
    {id : SeqId} {rest : List SeqId} (hwaiting : σ.waiting = id :: rest)
    (hstatus : (σ.objs id).status = .waiting) (harrived : (σ.objs id).arrivalTime ≤ now)
    (hlong : cfg.maxModelLen < (σ.objs id).getLen)
    (hoccurrences : ∀ id, σ'.occurrences id = σ.occurrences id)
    (hobjs : σ'.objs = Function.update σ.objs id { σ.objs id with status := .finishedIgnored })
    (hwaiting' : σ'.waiting = rest) (hpending : σ'.pending = σ.pending)
    (hrunning : σ'.running = σ.running) (hprefills : σ'.runningPrefills = σ.runningPrefills)
    (hignored : σ'.ignored = σ.ignored ++ [id]) (hpreempted : σ'.preempted = σ.preempted)
    (hscheduled : σ'.scheduled = σ.scheduled) : LoopInv cfg now W R objs₀ σ' := by
  have hmem : id ∈ σ.waiting := by simp [hwaiting]
  obtain ⟨-, hnotignored, -⟩ := h.of_waiting hnodup hmem
  -- it has not been dropped before, so its object is still the one at the start
  have hsame : σ.objs id = objs₀ id := h.objs_eq id hnotignored
  rw [hsame] at hstatus harrived hlong
  constructor
  case occurrences => exact fun a => (hoccurrences a).trans (h.occurrences a)
  case objs_eq =>
    intro a ha
    rw [hignored, List.mem_append, List.mem_singleton, not_or] at ha
    rw [hobjs, Function.update_of_ne ha.2, h.objs_eq a ha.1]
  case ignored =>
    intro a ha
    rw [hignored, List.mem_append, List.mem_singleton] at ha
    rw [hobjs]
    rcases ha with ha | rfl
    · have hne : a ≠ id := fun heq => hnotignored (heq ▸ ha)
      rw [Function.update_of_ne hne]
      exact h.ignored a ha
    · rw [Function.update_self, hsame]
      exact ⟨hstatus, harrived, hlong, rfl⟩
  case scheduled_nodup => simpa only [hscheduled] using h.scheduled_nodup
  case scheduled_running => simpa only [hscheduled, hrunning] using h.scheduled_running
  case preempted => simpa only [hpreempted] using h.preempted
  case preempted_nodup => simpa only [hpreempted] using h.preempted_nodup
  case waiting =>
    rw [hwaiting', hpreempted]
    exact fun a ha => h.waiting a (by simp [hwaiting, ha])
  case active => simpa only [hpending, hrunning, hprefills, hscheduled, hpreempted] using h.active
  case admitted => simpa only [hscheduled, hpreempted] using h.admitted
  case chunk => simpa only [hscheduled] using h.chunk

/-- Admitting the sequence at the head of the waiting list. -/
theorem LoopInv.admitFirst (h : LoopInv cfg now W R objs₀ σ) (hnodup : (W ++ R).Nodup)
    {id : SeqId} {rest : List SeqId} {chunkLen : Int} (hwaiting : σ.waiting = id :: rest)
    (hfits : (σ.objs id).getLen ≤ cfg.maxModelLen)
    (hchunk : (σ.objs id).promptProcessingFinished = true →
      chunkLen ≤ max 0 (remainingPrompt (σ.objs id)))
    (hoccurrences : ∀ id, σ'.occurrences id = σ.occurrences id)
    (hobjs : σ'.objs = σ.objs) (hwaiting' : σ'.waiting = rest) (hpending : σ'.pending = σ.pending)
    (hrunning : σ'.running = σ.running ++ [id])
    (hprefills : σ'.runningPrefills = σ.runningPrefills)
    (hignored : σ'.ignored = σ.ignored) (hpreempted : σ'.preempted = σ.preempted)
    (hscheduled : σ'.scheduled = σ.scheduled ++ [⟨id, chunkLen⟩]) :
    LoopInv cfg now W R objs₀ σ' := by
  have hmem : id ∈ σ.waiting := by simp [hwaiting]
  obtain ⟨-, hnotignored, hnew⟩ := h.of_waiting hnodup hmem
  rw [h.objs_eq id hnotignored] at hfits hchunk
  refine h.joinBatch hnew (.inr hfits) hchunk hoccurrences (fun a ha => ?_) (fun a ha => ?_) hobjs
    hrunning hignored hpreempted hscheduled
  · rw [hwaiting, ← hwaiting']
    exact List.mem_cons_of_mem id ha
  · rwa [hpending, hprefills] at ha

/-- **Step lemma**: every turn of every loop keeps the invariant. -/
theorem SchedStep.loopInv [BlockSpaceManager β] (hstep : SchedStep cfg now phase σ σ')
    (hnodup : (W ++ R).Nodup) (h : LoopInv cfg now W R objs₀ σ) :
    LoopInv cfg now W R objs₀ σ' := by
  have hocc := hstep.occurrences_eq
  cases hstep with
  | keep hpending =>
    refine h.regroup hocc (fun a ha => ?_) (fun a _ ha => ?_) rfl rfl rfl rfl rfl
    · simp only [List.mem_append, List.mem_singleton] at ha
      simp only [hpending, List.mem_cons]
      tauto
    · exact List.mem_append_left _ ha
  | setAside hpending =>
    refine h.regroup hocc (fun a ha => ?_) (fun a _ ha => ha) rfl rfl rfl rfl rfl
    simp only [List.mem_append, List.mem_singleton] at ha
    simp only [hpending, List.mem_cons]
    tauto
  | @decode _ _ id _ _ hpending hready =>
    refine h.schedulePending hnodup hpending (fun _ => ?_) hocc rfl rfl rfl rfl rfl rfl rfl rfl
    -- a decode has chunk length 0
    rw [defaultChunkLen_of_finished hready.2]
    exact le_max_left _ _
  | preempt hpending _ _ _ hexecuting =>
    exact h.preemptLast hnodup hpending hexecuting hocc rfl rfl rfl rfl rfl rfl rfl rfl
  | @prefill _ id _ _ hpending hprompt =>
    refine h.schedulePending hnodup hpending (fun hfinished => ?_) hocc rfl rfl rfl rfl rfl rfl
      rfl rfl
    -- the prompt is unfinished, so nothing is asked of the chunk
    have hnotignored := (h.of_pending hnodup (by simp [hpending] : id ∈ _)).2.1
    rw [h.objs_eq id hnotignored, hfinished] at hprompt
    cases hprompt
  | orcaDecode hpending hready =>
    refine h.schedulePending hnodup hpending (fun _ => ?_) hocc rfl rfl rfl rfl rfl rfl rfl rfl
    rw [defaultChunkLen_of_finished hready.2]
    exact le_max_left _ _
  | ignore hwaiting harrived hlong hstatus =>
    exact h.ignoreFirst hnodup hwaiting hstatus harrived hlong hocc rfl rfl rfl rfl rfl rfl rfl rfl
  | enter hwaiting _ hfits _ _ hchunk =>
    exact h.admitFirst hnodup hwaiting hfits hchunk hocc rfl rfl rfl rfl rfl rfl rfl rfl
  | requeue horder hpending hscheduled =>
    refine h.regroup hocc (fun a ha => ?_) (fun a hmem _ => ?_) rfl rfl rfl rfl rfl
    · simp only [List.not_mem_nil, false_or] at ha
      exact .inr (ha.imp_left horder.mem_iff.mp)
    · simp [hscheduled, scheduledIds] at hmem
  | takePrefills hpending =>
    refine h.regroup hocc (fun a ha => ?_) (fun a _ ha => ha) rfl rfl rfl rfl rfl
    simp only [List.not_mem_nil, or_false] at ha
    tauto

/-- **Run lemma**: so does every sequence of turns. -/
theorem SchedSteps.loopInv [BlockSpaceManager β] (hsteps : SchedSteps cfg now σ σ')
    (hnodup : (W ++ R).Nodup) (h : LoopInv cfg now W R objs₀ σ) :
    LoopInv cfg now W R objs₀ σ' :=
  reflTransGen_invariant (LoopInv cfg now W R objs₀)
    (fun _ _ ⟨_, hstep⟩ hσ => hstep.loopInv hnodup hσ) hsteps h

end Invariant

/-! ## The outcome of `schedule` -/

/-- How `schedule` moves the sequences, as far as its caller can rely on it. -/
structure ScheduleSpec (cfg : SchedulerConfig) (now : Time) (objs : Heap) (s : SchedulerState β)
    (objs' : Heap) (s' : SchedulerState β) (out : SchedulerOutputs) : Prop where
  /-- No sequence is lost or duplicated. -/
  perm : (s'.waiting ++ (s'.running ++ out.ignoredSeqIds)).Perm (s.waiting ++ s.running)
  objs_eq : ∀ id, id ∉ out.ignoredSeqIds → objs' id = objs id
  ignored : ∀ id ∈ out.ignoredSeqIds, (objs id).status = .waiting ∧
    (objs id).arrivalTime ≤ now ∧ cfg.maxModelLen < (objs id).getLen ∧
    objs' id = { objs id with status := .finishedIgnored }
  batch_nodup : out.batchIds.Nodup
  batch_running : ∀ id ∈ out.batchIds, id ∈ s'.running
  preempted : ∀ id ∈ out.preemptedSeqIds, id ∈ s.running ∧ (objs id).isExecuting = true
  preempted_nodup : out.preemptedSeqIds.Nodup
  waiting : ∀ id ∈ s'.waiting, id ∈ s.waiting ∨ id ∈ out.preemptedSeqIds
  running : ∀ id ∈ s'.running, id ∈ out.batchIds ∨ id ∈ s.running ∧ id ∉ out.preemptedSeqIds
  admitted : ∀ m ∈ out.scheduledSeqMetadataList,
    m.seqId ∈ s.running ∧ m.seqId ∉ out.preemptedSeqIds ∨
      (objs m.seqId).getLen ≤ cfg.maxModelLen
  chunk : ∀ m ∈ out.scheduledSeqMetadataList, (objs m.seqId).promptProcessingFinished = true →
    m.promptChunkLen ≤ max 0 (remainingPrompt (objs m.seqId))
  numRunningBatches : s'.numRunningBatches = s.numRunningBatches + if out.isEmpty then 0 else 1

theorem ScheduleSpec.wellFormed {objs objs' : Heap} {s s' : SchedulerState β}
    {out : SchedulerOutputs} (h : ScheduleSpec cfg now objs s objs' s' out)
    (hnodup : (s.waiting ++ s.running).Nodup) : out.WellFormed := by
  have hlists := h.perm.nodup_iff.mpr hnodup
  rw [List.nodup_append, List.nodup_append] at hlists
  obtain ⟨-, ⟨-, hignored, hdisjoint⟩, -⟩ := hlists
  constructor
  case ignored_nodup => exact hignored
  case preempted_nodup => exact h.preempted_nodup
  case batch_nodup => exact h.batch_nodup
  case ignored_preempted =>
    -- one was waiting, the other executing
    intro id hid hpre
    have hwaiting := (h.ignored id hid).1
    have hexecuting := (h.preempted id hpre).2
    simp [Sequence.isExecuting, hwaiting, SequenceStatus.isExecuting] at hexecuting
  case ignored_batch =>
    intro id hid hbatch
    exact hdisjoint id (h.batch_running id hbatch) id hid rfl

theorem ScheduleSpec.nodup {objs objs' : Heap} {s s' : SchedulerState β} {out : SchedulerOutputs}
    (h : ScheduleSpec cfg now objs s objs' s' out) (hnodup : (s.waiting ++ s.running).Nodup) :
    (s'.waiting ++ s'.running).Nodup := by
  have hlists := h.perm.nodup_iff.mpr hnodup
  rw [← List.append_assoc] at hlists
  exact hlists.of_append_left

/-- A sequence that waits after scheduling is not in the batch. -/
theorem ScheduleSpec.notMem_batch {objs objs' : Heap} {s s' : SchedulerState β}
    {out : SchedulerOutputs} (h : ScheduleSpec cfg now objs s objs' s' out)
    (hnodup : (s.waiting ++ s.running).Nodup) {id : SeqId} (hid : id ∈ s'.waiting) :
    id ∉ out.batchIds := by
  intro hbatch
  have hdisjoint := (List.nodup_append.mp (h.nodup hnodup)).2.2
  exact hdisjoint id hid id (h.batch_running id hbatch) rfl

/-- The sequences the scheduler has after scheduling it had before, with the same objects. -/
theorem ScheduleSpec.objs_of_mem {objs objs' : Heap} {s s' : SchedulerState β}
    {out : SchedulerOutputs} (h : ScheduleSpec cfg now objs s objs' s' out)
    (hnodup : (s.waiting ++ s.running).Nodup) {id : SeqId} (hid : id ∈ s'.waiting ++ s'.running) :
    id ∈ s.waiting ++ s.running ∧ id ∉ out.ignoredSeqIds ∧ objs' id = objs id := by
  have hmem : id ∈ s'.waiting ++ (s'.running ++ out.ignoredSeqIds) := by
    rw [← List.append_assoc]
    exact List.mem_append_left _ hid
  have hlists := h.perm.nodup_iff.mpr hnodup
  rw [← List.append_assoc, List.nodup_append] at hlists
  have hnot : id ∉ out.ignoredSeqIds := fun hign => hlists.2.2 id hid id hign rfl
  exact ⟨h.perm.mem_iff.mp hmem, hnot, h.objs_eq id hnot⟩

/-- The loop variables at the start satisfy the invariant; the block manager plays no part. -/
theorem LoopInv.start (cfg : SchedulerConfig) (now : Time) (objs : Heap) (s : SchedulerState β)
    (blockManager : β) :
    LoopInv cfg now s.waiting s.running objs { s.start objs with blockManager } where
  occurrences id := by
    simp [LoopState.occurrences, SchedulerState.start, List.count_append]
  objs_eq _ _ := rfl
  ignored := by simp [SchedulerState.start]
  scheduled_nodup := by simp [SchedulerState.start, scheduledIds]
  scheduled_running := by simp [SchedulerState.start, scheduledIds]
  preempted := by simp [SchedulerState.start]
  preempted_nodup := by simp [SchedulerState.start]
  waiting id hid := .inl hid
  active id hid := by
    simp only [SchedulerState.start, List.not_mem_nil, false_or, or_false] at hid
    exact .inr ⟨hid, by simp [SchedulerState.start]⟩
  admitted := by simp [SchedulerState.start]
  chunk := by simp [SchedulerState.start]

theorem LoopInv.scheduleSpec {objs : Heap} {s : SchedulerState β}
    (h : LoopInv cfg now s.waiting s.running objs σ) (hcomplete : σ.Complete) {turn : Turn}
    {numRunningBatches : Int}
    (hnum : numRunningBatches = s.numRunningBatches + if σ.outputs.isEmpty then 0 else 1) :
    ScheduleSpec cfg now objs s σ.objs
      { waiting := σ.waiting, running := σ.running, blockManager := σ.blockManager,
        numRunningBatches, whoseTurn := turn } σ.outputs where
  perm := by
    rw [List.perm_iff_count]
    intro id
    -- the queues of the loops are empty, so the other lists have all sequences
    have hocc := h.occurrences id
    simp only [LoopState.occurrences, hcomplete.pending, hcomplete.runningPrefills,
      List.count_nil, List.count_append] at hocc
    simp only [LoopState.outputs, List.count_append]
    omega
  objs_eq := h.objs_eq
  ignored := h.ignored
  batch_nodup := h.scheduled_nodup
  batch_running := h.scheduled_running
  preempted := h.preempted
  preempted_nodup := h.preempted_nodup
  waiting := h.waiting
  running id hid := h.active id (.inr (.inl hid))
  admitted := h.admitted
  chunk := h.chunk
  numRunningBatches := hnum

/-- **`schedule` only moves sequences**: for every policy, every block manager and every
    state whose lists have no duplicates, the outcome is described by `ScheduleSpec`. -/
theorem schedule_spec [BlockSpaceManager β] {objs objs' : Heap} {s s' : SchedulerState β}
    {out : SchedulerOutputs} (hnodup : (s.waiting ++ s.running).Nodup)
    (h : schedule cfg now objs s = .ok (objs', s', out)) :
    ScheduleSpec cfg now objs s objs' s' out := by
  rcases schedule_eq_ok h with ⟨rfl, rfl, rfl⟩ | ⟨σ, turn, hrun, rfl, rfl, rfl⟩
  · exact (LoopInv.start cfg now _ _ _).scheduleSpec ⟨rfl, rfl⟩
      (by simp [LoopState.outputs, SchedulerState.start, SchedulerOutputs.isEmpty])
  · obtain ⟨hsteps, hcomplete⟩ := runPolicy_steps ⟨⟨rfl, rfl⟩, rfl⟩ hrun
    have hinv := hsteps.loopInv hnodup (LoopInv.start cfg now objs s _)
    exact hinv.scheduleSpec hcomplete rfl

end VAttention.Scheduler
