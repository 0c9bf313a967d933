import VAttention.Engine.Invariants
import VAttention.Manager.Rounds
import VAttention.Pipeline.Engine
import VAttention.Scheduler.Overlap

/-!
# Workers that follow the engine

A worker begins a round later than the engine, and completes it at the same time.  Between the
two, its copy of a sequence is what the engine's was before the rounds in its queue
(`Follows`).  `PipelineInv` adds what holds of the batches under way: a sequence is in one of
them at a time, and is `RUNNING` unless it has been evicted since.

Not every interleaving keeps this.  `overlapsSafely` says which events do, in terms of the state
before the event.
-/

namespace VAttention.Pipeline

open VAttention.Core VAttention.Lib VAttention.Scheduler VAttention.Manager VAttention.Engine

variable {β : Type}

/-! ## Harmless events -/

/-- No waiting sequence has been evicted from a batch that is still under way. -/
def waitingAtRest (e : PipelineEngine β) : Bool :=
  e.scheduler.waiting.all fun id => e.schedulerOutputQueue.all fun out => id ∉ out.batchIds

/-- The conditions on an event, in the state before it.
    - A round finds all stages busy; or no waiting sequence is in a batch under way, Sarathi takes
      back no victim that is, and some decode gets a slot if one asks for it.
    - When a round completes, no worker still has to begin one that evicts a sequence of it. -/
def overlapsSafely [BlockSpaceManager β] (cfg : EngineConfig) (e : PipelineEngine β) :
    PipelineEvent → Bool
  | .schedule now =>
    (cfg.scheduler.numPipelineStages : Int) ≤ e.scheduler.numRunningBatches ||
      waitingAtRest e && keepsVictimsOut cfg.scheduler now e.replica.objs e.scheduler &&
        !stalled cfg.scheduler now e.replica.objs e.scheduler
  | .complete _ =>
    match e.schedulerOutputQueue with
    | [] => true
    | out :: _ => e.workers.all fun w => w.executionQueue.all fun later =>
        later.preemptedSeqIds.all fun id => id ∉ out.batchIds
  | .addRequest _ | .execute _ _ => true

/-! ## The invariant -/

/-- A worker follows the engine: once it has begun the batches in its queue, its copies of the
    given sequences are those of the engine. -/
structure Follows (sent : List SchedulerOutputs) (live : List SeqId) (objs : Heap)
    (w : StageWorker β) : Prop where
  queue : w.executionQueue.IsSuffix sent
  begins : BeginsAll w.executionQueue w.replica.view
  copies : ∀ id ∈ live, begunAll w.executionQueue id (w.replica.view id) = (core (objs id), True)

/-- Invariant of the pipeline between two events. -/
structure PipelineInv (e : PipelineEngine β) : Prop where
  nodup : (e.scheduler.waiting ++ e.scheduler.running).Nodup
  known : ∀ id ∈ e.scheduler.waiting ++ e.scheduler.running, id ∈ e.replica.seqMap
  regular : ∀ id ∈ e.scheduler.waiting ++ e.scheduler.running, Regular (e.replica.objs id)
  waiting : ∀ id ∈ e.scheduler.waiting, (e.replica.objs id).status = .waiting
  running : ∀ id ∈ e.scheduler.running,
    (e.replica.objs id).status = .paused ∨ (e.replica.objs id).status = .running
  wellFormed : ∀ out ∈ e.schedulerOutputQueue, out.WellFormed
  /-- A sequence is in one batch at a time. -/
  distinct : e.schedulerOutputQueue.Pairwise fun older newer =>
    ∀ id ∈ older.batchIds, id ∉ newer.batchIds ∧ id ∉ newer.ignoredSeqIds
  inFlight : ∀ out ∈ e.schedulerOutputQueue, ∀ id ∈ out.batchIds, id ∈ e.scheduler.waiting ∨
    id ∈ e.scheduler.running ∧ (e.replica.objs id).status = .running
  /-- What a later round evicts is still waiting. -/
  evicted : e.schedulerOutputQueue.Pairwise fun older newer =>
    ∀ id ∈ older.batchIds, id ∈ newer.preemptedSeqIds → id ∈ e.scheduler.waiting
  sent : e.sent.IsSuffix (e.schedulerOutputQueue.filter fun out => !out.isEmpty)
  workers : ∀ w ∈ e.workers,
    Follows e.sent (e.scheduler.waiting ++ e.scheduler.running) e.replica.objs w

theorem PipelineInv.start (blockManager : β) (numWorkers : Nat) :
    PipelineInv (PipelineEngine.start blockManager numWorkers) where
  nodup := List.nodup_nil
  known := nofun
  regular := nofun
  waiting := nofun
  running := nofun
  wellFormed := nofun
  distinct := .nil
  inFlight := nofun
  evicted := .nil
  sent := List.suffix_rfl
  workers w hw := by
    obtain rfl := List.eq_of_mem_replicate hw
    exact ⟨List.suffix_rfl, trivial, nofun⟩

/-- A round does the same to both copies of a sequence that it does not drop. -/
theorem begun_core {out : SchedulerOutputs} {id : SeqId} {s : Sequence}
    (hign : id ∉ out.ignoredSeqIds) :
    begun out id (core s, True) = (core (begun out id (s, True)).1, True) := by
  unfold begun
  split_ifs
  · rw [core_entering]
  · rfl
  · rfl

namespace PipelineInv

variable {e e' : PipelineEngine β}

/-- The queue of a worker holds rounds that have not been completed. -/
theorem queue_subset (h : PipelineInv e) {w : StageWorker β} (hw : w ∈ e.workers) :
    ∀ out ∈ w.executionQueue, out ∈ e.schedulerOutputQueue := by
  intro out hout
  have hmem := h.sent.subset ((h.workers w hw).queue.subset hout)
  exact (List.mem_filter.mp hmem).1

theorem inFlight_running (h : PipelineInv e) (hrest : waitingAtRest e = true)
    {older : SchedulerOutputs} (holder : older ∈ e.schedulerOutputQueue) {id : SeqId}
    (hid : id ∈ older.batchIds) :
    id ∈ e.scheduler.running ∧ (e.replica.objs id).status = .running := by
  refine (h.inFlight older holder id hid).resolve_left fun hwaiting => ?_
  have hall := List.all_eq_true.mp (List.all_eq_true.mp hrest id hwaiting) older holder
  exact of_decide_eq_true hall hid

variable [BlockSpaceManager β] {cfg : EngineConfig} {now : Time} {objs : Heap}
  {out : SchedulerOutputs}

/-! ## A round -/

/-- What a manager asserts when a round begins holds if it knows the sequences of the scheduler,
    with the status they have on the engine. -/
theorem begins (h : PipelineInv e) {s' : SchedulerState β}
    (hschedule : schedule cfg.scheduler now e.replica.objs e.scheduler = .ok (objs, s', out))
    {v : SeqId → Sequence × Prop}
    (hv : ∀ id ∈ e.scheduler.waiting ++ e.scheduler.running, (v id).2 ∧
      (id ∉ out.ignoredSeqIds → (v id).1.status = (e.replica.objs id).status)) :
    Begins out v := by
  refine begins_of_schedule (schedule_spec h.nodup hschedule) h.nodup (fun id hid => ?_) hv
  rcases schedule_batch_ready hschedule id hid with hpaused | hwaiting | hpreempted
  · exact .inr (.inr (by simpa [Sequence.isPaused] using hpaused))
  · exact .inr (.inl (h.waiting id hwaiting))
  · exact .inl hpreempted

/-- **A harmless round leaves the batches under way alone**, except that it may evict. -/
theorem inFlight_notMem (h : PipelineInv e) (hrest : waitingAtRest e = true)
    (hkeeps : keepsVictimsOut cfg.scheduler now e.replica.objs e.scheduler = true)
    {s' : SchedulerState β}
    (hschedule : schedule cfg.scheduler now e.replica.objs e.scheduler = .ok (objs, s', out))
    {older : SchedulerOutputs} (holder : older ∈ e.schedulerOutputQueue) {id : SeqId}
    (hid : id ∈ older.batchIds) : id ∉ out.batchIds ∧ id ∉ out.ignoredSeqIds := by
  have hspec := schedule_spec h.nodup hschedule
  obtain ⟨hrunning, hstatus⟩ := h.inFlight_running hrest holder hid
  refine ⟨fun hbatch => ?_, fun hign => ?_⟩
  · rcases schedule_batch_ready hschedule id hbatch with hpaused | hwaiting | hpreempted
    · simp [Sequence.isPaused, hstatus] at hpaused
    · exact (List.nodup_append.mp h.nodup).2.2 id hwaiting id hrunning rfl
    · have hprocessed : ∀ k ∈ e.scheduler.running,
          (e.replica.objs k).promptProcessingFinished = true →
            remainingPrompt (e.replica.objs k) = 0 := by
        intro k hk hfinished
        have heq := (h.regular k (List.mem_append_right _ hk)).processed_eq hfinished
        simp [remainingPrompt, Sequence.getPromptLen, heq]
      exact schedule_keeps_out h.nodup hprocessed hkeeps hschedule id hpreempted
        (by simp [Sequence.isRunning, hstatus]) hbatch
  · rw [(hspec.ignored id hign).1] at hstatus
    cases hstatus

/-- Where a sequence under way is after the round. -/
theorem inFlight_after (h : PipelineInv e) (hrest : waitingAtRest e = true)
    (hkeeps : keepsVictimsOut cfg.scheduler now e.replica.objs e.scheduler = true)
    {s' : SchedulerState β}
    (hschedule : schedule cfg.scheduler now e.replica.objs e.scheduler = .ok (objs, s', out))
    {older : SchedulerOutputs} (holder : older ∈ e.schedulerOutputQueue) {id : SeqId}
    (hid : id ∈ older.batchIds) :
    if id ∈ out.preemptedSeqIds then id ∈ s'.waiting else id ∈ s'.running := by
  have hspec := schedule_spec h.nodup hschedule
  obtain ⟨hbatch, hign⟩ := h.inFlight_notMem hrest hkeeps hschedule holder hid
  obtain ⟨hrunning, -⟩ := h.inFlight_running hrest holder hid
  have hmem := hspec.perm.mem_iff.mpr (List.mem_append_right e.scheduler.waiting hrunning)
  simp only [List.mem_append, hign, or_false] at hmem
  split_ifs with hpre
  · refine hmem.resolve_right fun hstill => ?_
    exact ((hspec.running id hstill).resolve_left hbatch).2 hpre
  · refine hmem.resolve_left fun hwaiting => ?_
    have hold := (hspec.waiting id hwaiting).resolve_right hpre
    exact (List.nodup_append.mp h.nodup).2.2 id hold id hrunning rfl

/-- What a round makes of the engine's copy of a sequence that the scheduler keeps. -/
theorem round_view (h : PipelineInv e) (hparts : PipelineEngine.RoundParts cfg now e e' objs out)
    {id : SeqId} (hid : id ∈ e'.scheduler.waiting ++ e'.scheduler.running) :
    e'.replica.view id = begun out id (e.replica.objs id, True) := by
  have hspec := schedule_spec h.nodup hparts.schedule
  obtain ⟨hold, -, hobjs⟩ := hspec.objs_of_mem h.nodup hid
  have hview : e'.replica.view id = begun out id (objs id, id ∈ e.replica.seqMap) := by
    rcases hparts.replica with ⟨hnone, hreplica⟩ | hreplica
    · rw [hreplica, begun_of_not_mentions]
      · rfl
      · simp only [SchedulerOutputs.hasNoOutput, Bool.and_eq_true, List.isEmpty_iff] at hnone
        simp [Mentions, SchedulerOutputs.batchIds, scheduledIds, hnone]
    · exact Replica.onSchedule_begun (hspec.wellFormed h.nodup) hreplica id
  rw [hview, hobjs, eq_true (h.known id hold)]

/-- The same for its object, by cases. -/
theorem round_objs (h : PipelineInv e) (hparts : PipelineEngine.RoundParts cfg now e e' objs out)
    {id : SeqId} (hid : id ∈ e'.scheduler.waiting ++ e'.scheduler.running) :
    id ∈ e'.replica.seqMap ∧ e'.replica.objs id =
      if id ∈ out.batchIds then entering out id (e.replica.objs id)
      else if id ∈ out.preemptedSeqIds then recomputed (e.replica.objs id)
      else e.replica.objs id := by
  have hspec := schedule_spec h.nodup hparts.schedule
  have hview := h.round_view hparts hid
  rw [begun, if_neg (hspec.objs_of_mem h.nodup hid).2.1] at hview
  have hobjs := congrArg Prod.fst hview
  have hknown := congrArg Prod.snd hview
  refine ⟨of_eq_true (hknown.trans ?_), hobjs.trans ?_⟩ <;> split_ifs <;> rfl

/-- What is sent to the workers is published as well. -/
theorem round_sent (h : PipelineInv e) (hparts : PipelineEngine.RoundParts cfg now e e' objs out) :
    e'.sent.IsSuffix (e'.schedulerOutputQueue.filter fun out => !out.isEmpty) := by
  obtain ⟨done, hdone⟩ := h.sent
  refine ⟨done, ?_⟩
  rw [hparts.sent, hparts.published, List.filter_append, ← hdone, List.append_assoc]
  congr 2
  split_ifs with hempty hnone hnone
  · rfl
  · simp [hempty]
  · simp only [SchedulerOutputs.hasNoOutput, Bool.and_eq_true] at hnone
    exact absurd hnone.1.1 hempty
  · simp [hempty]

/-- A worker that gets the round in its queue follows the engine. -/
theorem round_enqueue (h : PipelineInv e)
    (hparts : PipelineEngine.RoundParts cfg now e e' objs out) {w : StageWorker β}
    (hw : w ∈ e.workers) :
    Follows (e.sent ++ [out]) (e'.scheduler.waiting ++ e'.scheduler.running) e'.replica.objs
      (w.enqueue out) := by
  have hspec := schedule_spec h.nodup hparts.schedule
  have hfollows := h.workers w hw
  refine ⟨?_, hfollows.begins.concat ?_, fun id hid => ?_⟩
  · obtain ⟨done, hdone⟩ := hfollows.queue
    exact ⟨done, by simp [StageWorker.enqueue, ← hdone]⟩
  · refine h.begins hparts.schedule fun id hid => ?_
    rw [hfollows.copies id hid]
    exact ⟨trivial, fun _ => rfl⟩
  · obtain ⟨hold, hign, -⟩ := hspec.objs_of_mem h.nodup hid
    have hobjs : e'.replica.objs id = (begun out id (e.replica.objs id, True)).1 :=
      congrArg Prod.fst (h.round_view hparts hid)
    rw [StageWorker.enqueue, begunAll_concat]
    change begun out id (begunAll w.executionQueue id (w.replica.view id)) = _
    rw [hfollows.copies id hold, begun_core hign, hobjs]

/-- The workers follow the engine also through a round that does not reach them: unless the queue
    is stalled, it has evicted nobody. -/
theorem round_workers (h : PipelineInv e)
    (hstalled : stalled cfg.scheduler now e.replica.objs e.scheduler = false)
    (hparts : PipelineEngine.RoundParts cfg now e e' objs out) :
    ∀ w ∈ e'.workers,
      Follows e'.sent (e'.scheduler.waiting ++ e'.scheduler.running) e'.replica.objs w := by
  have hspec := schedule_spec h.nodup hparts.schedule
  rw [hparts.workers, hparts.sent]
  split_ifs with hempty
  · intro w hw
    have hfollows := h.workers w hw
    have hnobody : out.preemptedSeqIds = [] :=
      (schedule_progress_of_not_stalled hstalled hparts.schedule).resolve_left (by simp [hempty])
    have hbatch : out.batchIds = [] := by
      simpa [SchedulerOutputs.isEmpty, SchedulerOutputs.batchIds, scheduledIds] using hempty
    rw [List.append_nil]
    refine ⟨hfollows.queue, hfollows.begins, fun id hid => ?_⟩
    rw [(h.round_objs hparts hid).2, if_neg (by simp [hbatch]), if_neg (by simp [hnobody])]
    exact hfollows.copies id (hspec.objs_of_mem h.nodup hid).1
  · intro w' hw'
    obtain ⟨w, hw, rfl⟩ := List.mem_map.mp hw'
    exact h.round_enqueue hparts hw

/-- **A harmless round keeps the invariant.** -/
theorem round (h : PipelineInv e) (hrest : waitingAtRest e = true)
    (hkeeps : keepsVictimsOut cfg.scheduler now e.replica.objs e.scheduler = true)
    (hstalled : stalled cfg.scheduler now e.replica.objs e.scheduler = false)
    (hparts : PipelineEngine.RoundParts cfg now e e' objs out) : PipelineInv e' := by
  have hspec := schedule_spec h.nodup hparts.schedule
  have hwf := hspec.wellFormed h.nodup
  have hnew : ∀ older ∈ e.schedulerOutputQueue, ∀ id ∈ older.batchIds,
      id ∉ out.batchIds ∧ id ∉ out.ignoredSeqIds :=
    fun older holder id hid => h.inFlight_notMem hrest hkeeps hparts.schedule holder hid
  have hafter : ∀ older ∈ e.schedulerOutputQueue, ∀ id ∈ older.batchIds,
      if id ∈ out.preemptedSeqIds then id ∈ e'.scheduler.waiting
      else id ∈ e'.scheduler.running :=
    fun older holder id hid => h.inFlight_after hrest hkeeps hparts.schedule holder hid
  constructor
  case nodup => exact hspec.nodup h.nodup
  case known => exact fun id hid => (h.round_objs hparts hid).1
  case regular =>
    intro id hid
    have hregular := h.regular id (hspec.objs_of_mem h.nodup hid).1
    rw [(h.round_objs hparts hid).2]
    split_ifs
    · exact hregular.entering out id
    · exact regular_recomputed _
    · exact hregular
  case waiting =>
    intro id hid
    rw [(h.round_objs hparts (List.mem_append_left _ hid)).2,
      if_neg (hspec.notMem_batch h.nodup hid)]
    split_ifs with hpre
    · rfl
    · exact h.waiting id ((hspec.waiting id hid).resolve_right hpre)
  case running =>
    intro id hid
    rw [(h.round_objs hparts (List.mem_append_right _ hid)).2]
    split_ifs with hbatch hpre
    · exact .inr rfl
    · exact absurd hpre ((hspec.running id hid).resolve_left hbatch).2
    · exact h.running id ((hspec.running id hid).resolve_left hbatch).1
  case wellFormed =>
    intro older holder
    rcases hparts.mem_published holder with holder | rfl
    · exact h.wellFormed older holder
    · exact hwf
  case distinct => exact hparts.pairwise_published h.distinct hnew
  case inFlight =>
    intro older holder id hid
    rcases hparts.mem_published holder with holder | rfl
    · have hwhere := hafter older holder id hid
      split_ifs at hwhere with hpre
      · exact .inl hwhere
      · refine .inr ⟨hwhere, ?_⟩
        rw [(h.round_objs hparts (List.mem_append_right _ hwhere)).2,
          if_neg (hnew older holder id hid).1, if_neg hpre]
        exact (h.inFlight_running hrest holder hid).2
    · have hrunning := hspec.batch_running id hid
      refine .inr ⟨hrunning, ?_⟩
      rw [(h.round_objs hparts (List.mem_append_right _ hrunning)).2, if_pos hid]
      rfl
  case evicted =>
    refine hparts.pairwise_published ?_ fun older holder id hid hpre => ?_
    · -- nobody had been evicted from a batch under way before
      refine h.evicted.imp_of_mem fun {older newer} holder _ hpair id hid hpre => ?_
      have hrunning := (h.inFlight_running hrest holder hid).1
      exact absurd rfl ((List.nodup_append.mp h.nodup).2.2 id (hpair id hid hpre) id hrunning)
    · have hwhere := hafter older holder id hid
      rwa [if_pos hpre] at hwhere
  case sent => exact h.round_sent hparts
  case workers => exact h.round_workers hstalled hparts

/-! ## A batch that a worker begins -/

theorem execute {worker freeBlocks : Nat} (h : PipelineInv e)
    (hexec : e.executeBatch worker freeBlocks = .ok e') : PipelineInv e' := by
  unfold PipelineEngine.executeBatch at hexec
  split at hexec
  · cases hexec
    exact h
  rename_i w hw
  obtain ⟨w', hexecute, hexec⟩ := seq_eq_ok.mp hexec
  cases hexec
  refine ⟨h.nodup, h.known, h.regular, h.waiting, h.running, h.wellFormed, h.distinct, h.inFlight,
    h.evicted, h.sent, fun w₁ hw₁ => ?_⟩
  rcases List.mem_or_eq_of_mem_set hw₁ with hw₁ | rfl
  · exact h.workers w₁ hw₁
  have hmem : w ∈ e.workers := List.mem_of_getElem? hw
  have hfollows := h.workers w hmem
  rcases StageWorker.execute_eq_ok hexecute with rfl | ⟨out, ext, hqueue, hround⟩
  · exact hfollows
  -- the view changes as the queue had foreseen
  have hwf : out.WellFormed :=
    h.wellFormed out (h.queue_subset hmem out (by rw [hqueue]; exact List.mem_cons_self))
  have hview : w₁.replica.view = fun id => begun out id (w.replica.view id) := by
    funext id
    have hbegun := Replica.onSchedule_begun hwf hround id
    exact hbegun
  obtain ⟨hsuffix, hbegins, hcopies⟩ := hfollows
  rw [hqueue] at hsuffix hbegins hcopies
  refine ⟨(List.suffix_cons _ _).trans hsuffix, ?_, fun id hid => ?_⟩
  · rw [hview]
    exact hbegins.2
  · rw [hview]
    exact hcopies id hid

/-! ## A completion -/

variable {sampled : SeqId → TokenId} {batch : SchedulerOutputs}
  {rounds batches : List SchedulerOutputs}

omit [BlockSpaceManager β] in
theorem sent_tail (h : PipelineInv e) (hcompleting : e.Completing out batch rounds batches) :
    batches.IsSuffix (rounds.filter fun out => !out.isEmpty) := by
  have hsent := h.sent
  rw [hcompleting.sent, hcompleting.published, List.filter_cons] at hsent
  split_ifs at hsent
  · rcases List.suffix_cons_iff.mp hsent with heq | hsuffix
    · obtain ⟨-, heq⟩ := List.cons.inj heq
      rw [heq]
    · exact (List.suffix_cons _ _).trans hsuffix
  · exact (List.suffix_cons _ _).trans hsent

omit [BlockSpaceManager β] in
/-- Every worker has begun the batch that completes. -/
theorem queue_tail (h : PipelineInv e) (hcompleting : e.Completing out batch rounds batches)
    {w : StageWorker β} (hw : w ∈ e.workers) : w.executionQueue.IsSuffix batches := by
  have hqueue := (h.workers w hw).queue
  rw [hcompleting.sent] at hqueue
  refine (List.suffix_cons_iff.mp hqueue).resolve_left fun heq => ?_
  have hlen := hcompleting.begun w hw
  rw [heq, List.length_cons] at hlen
  omega

omit [BlockSpaceManager β] in
/-- The sequences of the completing batch are waiting, or running since it was sent. -/
theorem completing_inFlight (h : PipelineInv e)
    (hcompleting : e.Completing out batch rounds batches) {id : SeqId} (hid : id ∈ out.batchIds) :
    id ∈ e.scheduler.waiting ∨
      id ∈ e.scheduler.running ∧ (e.replica.objs id).status = .running := by
  refine h.inFlight out ?_ id hid
  rw [hcompleting.published]
  exact List.mem_cons_self

omit [BlockSpaceManager β] in
/-- If no worker has to begin a round that evicts a sequence of the completing batch, none has a
    round in its queue that mentions one. -/
theorem completing_not_mentions (h : PipelineInv e)
    (hcompleting : e.Completing out batch rounds batches) {w : StageWorker β} (hw : w ∈ e.workers)
    (hbegun : ∀ later ∈ w.executionQueue, ∀ id ∈ later.preemptedSeqIds, id ∉ out.batchIds)
    {id : SeqId} (hid : id ∈ out.batchIds) :
    ∀ later ∈ w.executionQueue, ¬ Mentions later id := by
  intro later hlater hmentions
  have hpublished : later ∈ rounds := by
    have hmem := (h.sent_tail hcompleting).subset ((h.queue_tail hcompleting hw).subset hlater)
    exact (List.mem_filter.mp hmem).1
  have hdistinct := h.distinct
  rw [hcompleting.published, List.pairwise_cons] at hdistinct
  obtain ⟨hbatch, hign⟩ := hdistinct.1 later hpublished id hid
  rcases hmentions with hmem | hmem | hmem
  · exact hign hmem
  · exact hbegun later hlater id hmem hid
  · exact hbatch hmem

omit [BlockSpaceManager β] in
/-- So the worker's copies of these sequences are up to date. -/
theorem completing_copy (h : PipelineInv e) (hcompleting : e.Completing out batch rounds batches)
    {w : StageWorker β} (hw : w ∈ e.workers)
    (hbegun : ∀ later ∈ w.executionQueue, ∀ id ∈ later.preemptedSeqIds, id ∉ out.batchIds)
    {id : SeqId} (hid : id ∈ out.batchIds) :
    w.replica.view id = (core (e.replica.objs id), True) := by
  have hlive : id ∈ e.scheduler.waiting ++ e.scheduler.running := by
    rw [List.mem_append]
    exact (h.completing_inFlight hcompleting hid).imp_right And.left
  rw [← (h.workers w hw).copies id hlive]
  exact (begunAll_of_not_mentions _ (h.completing_not_mentions hcompleting hw hbegun hid)).symm

omit [BlockSpaceManager β] in
/-- A completion answers entries of its round. -/
theorem answered_subset {id : SeqId} (hid : id ∈ (answered out batch).batchIds) :
    id ∈ out.batchIds := by
  obtain ⟨m, hm, rfl⟩ := List.mem_map.mp hid
  exact List.mem_map_of_mem (List.mem_of_mem_take hm)

omit [BlockSpaceManager β] in
theorem answered_nodup (h : PipelineInv e) (hcompleting : e.Completing out batch rounds batches) :
    (answered out batch).batchIds.Nodup := by
  have hout := h.wellFormed out (by rw [hcompleting.published]; exact List.mem_cons_self)
  refine hout.batch_nodup.sublist ?_
  exact (List.take_sublist _ _).map _

/-- What a completion does to the engine's copy of a sequence that the scheduler has: it stays as
    it is, or it was `RUNNING` and advances. -/
theorem completing_cases (h : PipelineInv e) (hcompleting : e.Completing out batch rounds batches)
    (hparts : PipelineEngine.CompletionParts cfg sampled out batch e e') {id : SeqId}
    (hid : id ∈ e.scheduler.waiting ++ e.scheduler.running) :
    ((id ∈ (answered out batch).batchIds → (e.replica.objs id).status = .waiting) ∧
        e'.replica.view id = e.replica.view id) ∨
      ∃ m ∈ (answered out batch).scheduledSeqMetadataList, m.seqId = id ∧
        (e.replica.objs id).status ≠ .waiting ∧ ∃ s',
        advance (engineHooks cfg.detokenize) (sampled id) m.promptChunkLen (e.replica.objs id) =
          .ok s' ∧
        e'.replica.view id = (s', s'.isFinished = false) := by
  have hview := Replica.onStepCompleted_view (h.answered_nodup hcompleting) hparts.replica
  by_cases hanswered : id ∈ (answered out batch).batchIds
  · obtain ⟨m, hm, rfl⟩ := List.mem_map.mp hanswered
    rcases hview.mem m hm with ⟨hwaiting, hsame⟩ | ⟨hnot, hadvance⟩
    · exact .inl ⟨fun _ => hwaiting, hsame⟩
    · exact .inr ⟨m, hm, rfl, hnot, hadvance⟩
  · exact .inl ⟨fun hmem => absurd hmem hanswered, hview.frame id hanswered⟩

theorem completing_objs (h : PipelineInv e) (hcompleting : e.Completing out batch rounds batches)
    (hparts : PipelineEngine.CompletionParts cfg sampled out batch e e') {id : SeqId}
    (hid : id ∉ out.batchIds ∨ id ∈ e.scheduler.waiting) :
    e'.replica.view id = e.replica.view id := by
  have hview := Replica.onStepCompleted_view (h.answered_nodup hcompleting) hparts.replica
  by_cases hanswered : id ∈ (answered out batch).batchIds
  · obtain ⟨m, hm, rfl⟩ := List.mem_map.mp hanswered
    have hwaiting := h.waiting _ (hid.resolve_left (not_not_intro (answered_subset hanswered)))
    exact ((hview.mem m hm).resolve_right fun hnot => hnot.1 hwaiting).2
  · exact hview.frame id hanswered

/-- A running sequence that goes on after the completion: it is not in the batch, or was not
    answered, or has advanced. -/
theorem completing_running (h : PipelineInv e)
    (hcompleting : e.Completing out batch rounds batches)
    (hparts : PipelineEngine.CompletionParts cfg sampled out batch e e') {id : SeqId}
    (hid : id ∈ e'.scheduler.running) :
    id ∈ e.scheduler.running ∧ (e'.replica.objs id).isFinished = false ∧
      id ∈ e'.replica.seqMap ∧ Regular (e'.replica.objs id) ∧
      ((e'.replica.objs id).status = .paused ∨ (e'.replica.objs id).status = .running) := by
  have hfilter : id ∈ e.scheduler.running ∧ (e'.replica.objs id).isFinished = false := by
    rw [hparts.scheduler] at hid
    simpa [SchedulerState.onStepCompleted] using hid
  obtain ⟨hrunning, hnot⟩ := hfilter
  have hmem := List.mem_append_right e.scheduler.waiting hrunning
  refine ⟨hrunning, hnot, ?_⟩
  rcases h.completing_cases hcompleting hparts hmem with
    ⟨-, hsame⟩ | ⟨m, -, rfl, -, s', hadvance, hview⟩
  · have hobjs : e'.replica.objs id = e.replica.objs id := congrArg Prod.fst hsame
    have hknown : (id ∈ e'.replica.seqMap) = (id ∈ e.replica.seqMap) := congrArg Prod.snd hsame
    rw [hobjs, hknown]
    exact ⟨h.known id hmem, h.regular id hmem, h.running id hrunning⟩
  · have hobjs : e'.replica.objs m.seqId = s' := congrArg Prod.fst hview
    have hknown : (m.seqId ∈ e'.replica.seqMap) = (s'.isFinished = false) :=
      congrArg Prod.snd hview
    rw [hobjs] at hnot ⊢
    obtain ⟨hregular, hpaused⟩ := advance_regular (engineHooks_textOnly _) (h.regular _ hmem)
      hadvance hnot
    exact ⟨hknown.mpr hnot, hregular, .inl hpaused⟩

/-- A worker goes on following through a completion. -/
theorem completing_follows (h : PipelineInv e)
    (hcompleting : e.Completing out batch rounds batches)
    (hparts : PipelineEngine.CompletionParts cfg sampled out batch e e')
    {w w' : StageWorker β} (hw : w ∈ e.workers)
    (hbegun : ∀ later ∈ w.executionQueue, ∀ id ∈ later.preemptedSeqIds, id ∉ out.batchIds)
    (hstep : w.onSamplingCompleted (answered out batch) sampled = .ok w') :
    Follows batches (e'.scheduler.waiting ++ e'.scheduler.running) e'.replica.objs w' := by
  have hfollows := h.workers w hw
  obtain ⟨r, hcompleted, hstep⟩ := seq_eq_ok.mp hstep
  cases hstep
  have hview := Replica.onStepCompleted_view (h.answered_nodup hcompleting) hcompleted
  have htail := h.queue_tail hcompleting hw
  refine ⟨htail, ?_, fun id hid => ?_⟩
  · -- the rounds in the queue are about other sequences
    refine hfollows.begins.congr fun later hlater id hmentions => hview.frame id fun hanswered => ?_
    exact h.completing_not_mentions hcompleting hw hbegun (answered_subset hanswered) later hlater
      hmentions
  have hold : id ∈ e.scheduler.waiting ++ e.scheduler.running := by
    rw [List.mem_append] at hid ⊢
    refine hid.imp (fun hwaiting => ?_) fun hrunning => ?_
    · rwa [hparts.scheduler] at hwaiting
    · exact (h.completing_running hcompleting hparts hrunning).1
  by_cases hanswered : id ∈ (answered out batch).batchIds
  · have hout := answered_subset hanswered
    have hcopy := h.completing_copy hcompleting hw hbegun hout
    have hqueue := h.completing_not_mentions hcompleting hw hbegun hout
    rw [begunAll_of_not_mentions _ (by exact hqueue)]
    obtain ⟨m, hm, rfl⟩ := List.mem_map.mp hanswered
    have hworker := hview.mem m hm
    rw [hcopy] at hworker
    rcases h.completing_cases hcompleting hparts hold with
      ⟨hwaiting, hsame⟩ | ⟨m', hm', heq, hnot, s', hadvance, hengine⟩
    · -- both pass over it
      have hobjs : e'.replica.objs m.seqId = e.replica.objs m.seqId := congrArg Prod.fst hsame
      rw [hobjs]
      exact (hworker.resolve_right fun hno => hno.1 (hwaiting hanswered)).2
    · -- both advance it
      obtain rfl : m' = m := by
        exact List.inj_on_of_nodup_map (h.answered_nodup hcompleting) hm' hm heq
      have hobjs : e'.replica.objs m'.seqId = s' := congrArg Prod.fst hengine
      have hgoes : s'.isFinished = false := by
        rcases List.mem_append.mp hid with hwaiting | hrunning
        · rw [hparts.scheduler] at hwaiting
          exact absurd (h.waiting _ hwaiting) hnot
        · rw [← hobjs]
          exact (h.completing_running hcompleting hparts hrunning).2.1
      obtain ⟨-, s'', hadvance', hself⟩ := hworker.resolve_left fun hyes => hnot hyes.1
      have hcore := advance_core β (engineHooks_textOnly cfg.detokenize) hadvance hgoes
      obtain rfl : s'' = core s' := Except.ok.inj (hadvance'.symm.trans hcore)
      rw [hobjs]
      refine hself.trans (Prod.ext rfl (eq_true ?_))
      exact hgoes
  · have hobjs : e'.replica.objs id = e.replica.objs id := by
      rcases h.completing_cases hcompleting hparts hold with ⟨-, hsame⟩ | ⟨m, hm, rfl, -⟩
      · exact congrArg Prod.fst hsame
      · exact absurd (List.mem_map_of_mem hm) hanswered
    rw [hobjs, ← hfollows.copies id hold]
    exact congrArg _ (hview.frame id hanswered)

/-- **A harmless completion keeps the invariant.** -/
theorem complete (h : PipelineInv e) (hcompleting : e.Completing out batch rounds batches)
    (hparts : PipelineEngine.CompletionParts cfg sampled out batch e e')
    (hrounds : e'.schedulerOutputQueue = rounds) (hsent : e'.sent = batches)
    (hbegun : ∀ w ∈ e.workers, ∀ later ∈ w.executionQueue, ∀ id ∈ later.preemptedSeqIds,
      id ∉ out.batchIds) : PipelineInv e' := by
  have hwaiting : e'.scheduler.waiting = e.scheduler.waiting := by
    rw [hparts.scheduler]
    rfl
  have hsublist : (e'.scheduler.waiting ++ e'.scheduler.running).Sublist
      (e.scheduler.waiting ++ e.scheduler.running) := by
    rw [hparts.scheduler]
    exact List.Sublist.append_left List.filter_sublist _
  have hsame : ∀ id ∈ e.scheduler.waiting, e'.replica.view id = e.replica.view id :=
    fun id hid => h.completing_objs hcompleting hparts (.inr hid)
  have hlive : ∀ id ∈ e'.scheduler.waiting ++ e'.scheduler.running,
      id ∈ e'.replica.seqMap ∧ Regular (e'.replica.objs id) := by
    intro id hid
    rcases List.mem_append.mp hid with hid | hid
    · rw [hwaiting] at hid
      have hmem := List.mem_append_left e.scheduler.running hid
      have hview : (e'.replica.view id).2 ∧ Regular (e'.replica.view id).1 := by
        rw [hsame id hid]
        exact ⟨h.known id hmem, h.regular id hmem⟩
      exact hview
    · have hgoes := h.completing_running hcompleting hparts hid
      exact ⟨hgoes.2.2.1, hgoes.2.2.2.1⟩
  have hdistinct := h.distinct
  have hevicted := h.evicted
  rw [hcompleting.published, List.pairwise_cons] at hdistinct hevicted
  constructor
  case nodup => exact h.nodup.sublist hsublist
  case known => exact fun id hid => (hlive id hid).1
  case regular => exact fun id hid => (hlive id hid).2
  case waiting =>
    intro id hid
    rw [hwaiting] at hid
    have hobjs : e'.replica.objs id = e.replica.objs id := congrArg Prod.fst (hsame id hid)
    rw [hobjs]
    exact h.waiting id hid
  case running => exact fun id hid => (h.completing_running hcompleting hparts hid).2.2.2.2
  case wellFormed =>
    intro later hlater
    rw [hrounds] at hlater
    exact h.wellFormed later (by rw [hcompleting.published]; exact List.mem_cons_of_mem _ hlater)
  case distinct => rw [hrounds]; exact hdistinct.2
  case inFlight =>
    intro later hlater id hid
    rw [hrounds] at hlater
    have hpublished : later ∈ e.schedulerOutputQueue := by
      rw [hcompleting.published]
      exact List.mem_cons_of_mem _ hlater
    -- it is not in the completing batch, so its object stays as it is
    have hother : id ∉ out.batchIds := fun hout => (hdistinct.1 later hlater id hout).1 hid
    have hobjs : e'.replica.objs id = e.replica.objs id :=
      congrArg Prod.fst (h.completing_objs hcompleting hparts (.inl hother))
    rw [hwaiting, hobjs]
    refine (h.inFlight later hpublished id hid).imp_right fun ⟨hrunning, hstatus⟩ => ?_
    refine ⟨?_, hstatus⟩
    rw [hparts.scheduler]
    simp [SchedulerState.onStepCompleted, hrunning, hobjs, Sequence.isFinished, hstatus,
      SequenceStatus.isFinished]
  case evicted => rw [hrounds, hwaiting]; exact hevicted.2
  case sent => rw [hrounds, hsent]; exact h.sent_tail hcompleting
  case workers =>
    intro w' hw'
    obtain ⟨w, hw, hstep⟩ := exists_mem_of_mapM_ok hparts.workers w' hw'
    rw [hsent]
    exact h.completing_follows hcompleting hparts hw (hbegun w hw) hstep

/-! ## A request -/

omit [BlockSpaceManager β] in
/-- A new sequence is in none of the rounds that a worker still has to begin. -/
theorem follows_addSeq {sent : List SchedulerOutputs} {live live' : List SeqId} {objs objs' : Heap}
    {w w' : StageWorker β} {seq : Sequence} (h : Follows sent live objs w)
    (hadd : w.addSeq seq = .ok w') (hcore : core seq = seq) (hself : objs' seq.seqId = seq)
    (hold : ∀ id ∈ live, id ≠ seq.seqId ∧ objs' id = objs id)
    (hlive : ∀ id ∈ live', id = seq.seqId ∨ id ∈ live) : Follows sent live' objs' w' := by
  obtain ⟨r, hreplica, hadd⟩ := seq_eq_ok.mp hadd
  cases hadd
  have hqueue : ∀ out ∈ w.executionQueue, ¬ Mentions out seq.seqId :=
    fun out hout hmentions => (addSeq_eq_ok hreplica).1 (h.begins.known hout hmentions)
  refine ⟨h.queue, h.begins.congr fun out hout id hmentions => ?_, fun id hid => ?_⟩
  · rw [addSeq_view hreplica, if_neg]
    rintro rfl
    exact hqueue out hout hmentions
  · rcases hlive id hid with rfl | hid
    · refine (begunAll_of_not_mentions _ hqueue).trans ?_
      rw [addSeq_view hreplica, if_pos rfl, hself, hcore]
    · obtain ⟨hne, hobjs⟩ := hold id hid
      have hcopy : r.view id = w.replica.view id := by rw [addSeq_view hreplica, if_neg hne]
      rw [hobjs, ← h.copies id hid]
      exact congrArg _ hcopy

omit [BlockSpaceManager β] in
/-- A request whose id nobody knows keeps the invariant. -/
theorem addRequest {req : Request} (h : PipelineInv e) (hexec : e.addRequest cfg req = .ok e') :
    PipelineInv e' := by
  obtain ⟨replica, hengine, hexec⟩ := seq_eq_ok.mp hexec
  obtain ⟨workers, hworkers, hexec⟩ := seq_eq_ok.mp hexec
  cases hexec
  have hfresh : req.seqId ∉ e.replica.seqMap := (addSeq_eq_ok hengine).1
  have hself : replica.view req.seqId = (req.toSequence cfg, True) := by
    rw [addSeq_view hengine]
    exact if_pos rfl
  have hnew : replica.objs req.seqId = req.toSequence cfg := congrArg Prod.fst hself
  -- the sequences that the scheduler has are others
  have hne : ∀ id ∈ e.scheduler.waiting ++ e.scheduler.running, id ≠ req.seqId := by
    rintro id hid rfl
    exact hfresh (h.known _ hid)
  have hview : ∀ id ∈ e.scheduler.waiting ++ e.scheduler.running,
      replica.view id = e.replica.view id := by
    intro id hid
    rw [addSeq_view hengine]
    exact if_neg (hne id hid)
  have hobjs : ∀ id ∈ e.scheduler.waiting ++ e.scheduler.running,
      replica.objs id = e.replica.objs id := fun id hid => congrArg Prod.fst (hview id hid)
  have hperm : ((e.scheduler.waiting ++ [req.seqId]) ++ e.scheduler.running).Perm
      (req.seqId :: (e.scheduler.waiting ++ e.scheduler.running)) := by
    rw [List.append_assoc]
    exact List.perm_middle
  have hcases : ∀ id ∈ (e.scheduler.waiting ++ [req.seqId]) ++ e.scheduler.running,
      id = req.seqId ∨ id ∈ e.scheduler.waiting ++ e.scheduler.running :=
    fun id hid => List.mem_cons.mp (hperm.mem_iff.mp hid)
  have hlive : ∀ id ∈ (e.scheduler.waiting ++ [req.seqId]) ++ e.scheduler.running,
      (replica.view id).2 ∧ Regular (replica.view id).1 := by
    intro id hid
    rcases hcases id hid with rfl | hid
    · rw [hself]
      exact ⟨trivial, regular_toSequence cfg req⟩
    · rw [hview id hid]
      exact ⟨h.known id hid, h.regular id hid⟩
  constructor
  case nodup =>
    exact hperm.nodup_iff.mpr (List.nodup_cons.mpr ⟨fun hid => hne _ hid rfl, h.nodup⟩)
  case known => exact fun id hid => (hlive id hid).1
  case regular => exact fun id hid => (hlive id hid).2
  case waiting =>
    intro id hid
    rcases List.mem_append.mp hid with hid | hid
    · rw [hobjs id (List.mem_append_left _ hid)]
      exact h.waiting id hid
    · obtain rfl := List.mem_singleton.mp hid
      exact congrArg Sequence.status hnew
  case running =>
    intro id hid
    rw [hobjs id (List.mem_append_right _ hid)]
    exact h.running id hid
  case wellFormed => exact h.wellFormed
  case distinct => exact h.distinct
  case inFlight =>
    intro out hout id hid
    refine (h.inFlight out hout id hid).imp (List.mem_append_left _) fun ⟨hrunning, hstatus⟩ => ?_
    rw [hobjs id (List.mem_append_right _ hrunning)]
    exact ⟨hrunning, hstatus⟩
  case evicted =>
    exact h.evicted.imp fun hpair id hid hpre => List.mem_append_left _ (hpair id hid hpre)
  case sent => exact h.sent
  case workers =>
    intro w' hw'
    obtain ⟨w, hw, hadd⟩ := exists_mem_of_mapM_ok hworkers w' hw'
    exact follows_addSeq (h.workers w hw) hadd rfl hnew
      (fun id hid => ⟨hne id hid, hobjs id hid⟩) hcases

/-! ## Runs -/

theorem begun_of_overlapsSafely
    (hcompleting : e.Completing out batch rounds batches)
    (hsafe : overlapsSafely cfg e (.complete sampled) = true) :
    ∀ w ∈ e.workers, ∀ later ∈ w.executionQueue, ∀ id ∈ later.preemptedSeqIds,
      id ∉ out.batchIds := by
  simp only [overlapsSafely, hcompleting.published] at hsafe
  simpa using hsafe

/-- With all stages busy a round does nothing. -/
theorem scheduleRound_of_busy
    (hbusy : (cfg.scheduler.numPipelineStages : Int) ≤ e.scheduler.numRunningBatches) :
    e.scheduleRound cfg now = .ok e := by
  simp only [PipelineEngine.scheduleRound, schedule, if_pos hbusy]
  rfl

/-- **Every harmless event keeps the invariant.** -/
theorem exec {event : PipelineEvent} (h : PipelineInv e)
    (hsafe : overlapsSafely cfg e event = true) (hexec : e.exec cfg event = .ok e') :
    PipelineInv e' := by
  cases event with
  | addRequest req => exact h.addRequest hexec
  | schedule now =>
    simp only [overlapsSafely, Bool.or_eq_true, Bool.and_eq_true, decide_eq_true_eq] at hsafe
    rcases hsafe with hbusy | ⟨⟨hrest, hkeeps⟩, hstalled⟩
    · cases (scheduleRound_of_busy hbusy).symm.trans hexec
      exact h
    · obtain ⟨objs, out, hparts⟩ := PipelineEngine.scheduleRound_parts hexec
      exact h.round hrest hkeeps (by simpa using hstalled) hparts
  | execute worker freeBlocks => exact h.execute hexec
  | complete sampled =>
    rcases e.completeRound_cases cfg sampled with
      hwait | ⟨out, batch, rounds, batches, hcompleting, hfinish⟩
    · cases hwait.symm.trans hexec
      exact h
    · obtain ⟨hparts, hrounds, hsent⟩ :=
        PipelineEngine.finishRound_parts (hfinish.symm.trans hexec)
      exact h.complete hcompleting hparts hrounds hsent (begun_of_overlapsSafely hcompleting hsafe)

end PipelineInv

end VAttention.Pipeline
