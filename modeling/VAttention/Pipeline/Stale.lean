import VAttention.Pipeline.Following

/-!
# Outputs of batches that were overtaken by an eviction

A sequence can be evicted while a batch that contains it is under way.  `on_step_completed` then
finds it `WAITING` and passes over it.  This test is the only protection, so it is needed that

- the sequence is not scheduled again before the old batch completes, and
- every worker has begun the round that evicts it when the old batch completes.

The code guarantees neither.  In runs of harmless events (`overlapsSafely`) every manager
discards the stale outputs and no assertion of a manager fails (`stale_outputs_discarded`);
`readmittedInFlight_advances` is a run of three stages in which both go wrong.
-/

namespace VAttention.Pipeline

open VAttention.Core VAttention.Lib VAttention.Scheduler VAttention.Manager VAttention.Engine

variable {β : Type} [BlockSpaceManager β] {cfg : EngineConfig} {e e' : PipelineEngine β}

/-! ## Exceptions -/

/-- Where the exception of an event comes from, if no sequence manager raises it for a sequence
    that it is told to drop, evict, schedule or complete. -/
inductive RaisedElsewhere (cfg : EngineConfig) (e : PipelineEngine β) :
    PipelineEvent → PyError → Prop where
  /-- The id of a request is in use. -/
  | duplicateId {req : Request} {err : PyError}
      (h : req.seqId ∈ e.replica.seqMap ∨ ∃ w ∈ e.workers, req.seqId ∈ w.replica.seqMap) :
      RaisedElsewhere cfg e (.addRequest req) err
  /-- The scheduler. -/
  | scheduler {now : Time} {err : PyError}
      (h : schedule cfg.scheduler now e.replica.objs e.scheduler = .error err) :
      RaisedElsewhere cfg e (.schedule now) err
  /-- The block manager of a worker. -/
  | blockManager {worker freeBlocks : Nat} {err : PyError} {id : SeqId} {seq : Sequence}
      {blockManager : β} (h : (workerHooks β).onScheduled id seq blockManager = .error err) :
      RaisedElsewhere cfg e (.execute worker freeBlocks) err
  /-- The methods of a sequence object, on a worker or on the engine. -/
  | workerCopy {sampled : SeqId → TokenId} {err : PyError} {w : StageWorker β}
      {m : SequenceScheduleMetadata} (hw : w ∈ e.workers)
      (h : advance (workerHooks β) (sampled m.seqId) m.promptChunkLen (w.replica.objs m.seqId) =
        .error err) :
      RaisedElsewhere cfg e (.complete sampled) err
  | engineCopy {sampled : SeqId → TokenId} {err : PyError} {m : SequenceScheduleMetadata}
      (h : advance (engineHooks cfg.detokenize) (sampled m.seqId) m.promptChunkLen
        (e.replica.objs m.seqId) = .error err) :
      RaisedElsewhere cfg e (.complete sampled) err

omit [BlockSpaceManager β] in
theorem addSeq_error {μ : Type} {r : Replica μ} {seq : Sequence} {err : PyError}
    (h : r.addSeq seq = .error err) : seq.seqId ∈ r.seqMap := by
  rcases seq_eq_error.mp h with h | ⟨_, -, h⟩
  · by_contra hnot
    simp [assertThat, hnot] at h
  · cases h

namespace PipelineInv

/-- The engine's manager raises nothing when a round begins. -/
theorem scheduleRound_error (h : PipelineInv e) {now : Time} {err : PyError}
    (hexec : e.scheduleRound cfg now = .error err) :
    schedule cfg.scheduler now e.replica.objs e.scheduler = .error err := by
  rcases seq_eq_error.mp hexec with hexec | ⟨⟨objs, s', out⟩, hschedule, hexec⟩
  · exact hexec
  exfalso
  have hspec := schedule_spec h.nodup hschedule
  have hbegins : Begins out fun id => (objs id, id ∈ e.replica.seqMap) :=
    h.begins hschedule fun id hid =>
      ⟨h.known id hid, fun hign => by rw [hspec.objs_eq id hign]⟩
  have hround (err : PyError) :
      Replica.onSchedule (engineHooks cfg.detokenize) out { e.replica with objs } ≠ .error err := by
    intro hraise
    obtain ⟨id, s, ext, hhook⟩ :=
      Replica.onSchedule_error (hspec.wellFormed h.nodup) (by exact hbegins) hraise
    cases hhook
  dsimp only at hexec
  split_ifs at hexec
  · cases hexec
  · rcases seq_eq_error.mp hexec with hexec | ⟨_, -, hexec⟩
    · exact hround err hexec
    · cases hexec
  · rcases seq_eq_error.mp hexec with hexec | ⟨_, -, hexec⟩
    · exact hround err hexec
    · cases hexec

/-- A worker's manager raises nothing of its own when it begins a batch. -/
theorem executeBatch_error (h : PipelineInv e) {worker freeBlocks : Nat} {err : PyError}
    (hexec : e.executeBatch worker freeBlocks = .error err) :
    ∃ id seq blockManager, (workerHooks β).onScheduled id seq blockManager = .error err := by
  unfold PipelineEngine.executeBatch at hexec
  split at hexec
  · cases hexec
  rename_i w hw
  have hmem : w ∈ e.workers := List.mem_of_getElem? hw
  rcases seq_eq_error.mp hexec with hexec | ⟨_, -, hexec⟩
  · unfold StageWorker.execute at hexec
    split at hexec
    · cases hexec
    rename_i out rest hqueue
    rcases seq_eq_error.mp hexec with hexec | ⟨_, -, hexec⟩
    · have hbegins := (h.workers w hmem).begins
      rw [hqueue] at hbegins
      have hwf := h.wellFormed out (h.queue_subset hmem out (by rw [hqueue]; simp))
      exact Replica.onSchedule_error hwf (by exact hbegins.1) hexec
    · cases hexec
  · cases hexec

/-- The managers raise nothing of their own at a harmless completion. -/
theorem completeRound_error (h : PipelineInv e) {sampled : SeqId → TokenId} {err : PyError}
    (hsafe : overlapsSafely cfg e (.complete sampled) = true)
    (hexec : e.completeRound cfg sampled = .error err) :
    RaisedElsewhere cfg e (.complete sampled) err := by
  rcases e.completeRound_cases cfg sampled with
    hwait | ⟨out, batch, rounds, batches, hcompleting, hfinish⟩
  · cases hwait.symm.trans hexec
  have hbegun := begun_of_overlapsSafely hcompleting hsafe
  have hnodup := h.answered_nodup hcompleting
  -- the entries are known, and they wait or run
  have hready : ∀ id ∈ (answered out batch).batchIds, id ∈ e.replica.seqMap ∧
      ((e.replica.objs id).status = .waiting ∨ (e.replica.objs id).status = .running) := by
    intro id hid
    rcases h.completing_inFlight hcompleting (answered_subset hid) with hwaiting | ⟨hrunning, hst⟩
    · exact ⟨h.known id (List.mem_append_left _ hwaiting), .inl (h.waiting id hwaiting)⟩
    · exact ⟨h.known id (List.mem_append_right _ hrunning), .inr hst⟩
  rcases seq_eq_error.mp (hfinish.symm.trans hexec) with hworkers | ⟨_, -, hexec⟩
  · obtain ⟨w, hw, hraise⟩ := exists_mem_of_mapM_error hworkers
    rcases seq_eq_error.mp hraise with hraise | ⟨_, -, hraise⟩
    · obtain ⟨m, -, hadvance⟩ := Replica.onStepCompleted_error hnodup (fun id hid => by
        rw [h.completing_copy hcompleting hw (hbegun w hw) (answered_subset hid)]
        exact ⟨trivial, (hready id hid).2⟩) hraise
      exact .workerCopy hw hadvance
    · cases hraise
  · rcases seq_eq_error.mp hexec with hraise | ⟨_, -, hexec⟩
    · obtain ⟨m, -, hadvance⟩ := Replica.onStepCompleted_error hnodup hready hraise
      exact .engineCopy hadvance
    · cases hexec

/-- **No manager raises anything of its own** in a harmless event. -/
theorem raisedElsewhere (h : PipelineInv e) {event : PipelineEvent} {err : PyError}
    (hsafe : overlapsSafely cfg e event = true) (hexec : e.exec cfg event = .error err) :
    RaisedElsewhere cfg e event err := by
  cases event with
  | addRequest req =>
    refine .duplicateId ?_
    rcases seq_eq_error.mp hexec with hexec | ⟨_, -, hexec⟩
    · exact .inl (addSeq_error hexec)
    rcases seq_eq_error.mp hexec with hexec | ⟨_, -, hexec⟩
    · obtain ⟨w, hw, hraise⟩ := exists_mem_of_mapM_error hexec
      rcases seq_eq_error.mp hraise with hraise | ⟨_, -, hraise⟩
      · exact .inr ⟨w, hw, addSeq_error hraise⟩
      · cases hraise
    · cases hexec
  | schedule now => exact .scheduler (h.scheduleRound_error hexec)
  | execute worker freeBlocks =>
    obtain ⟨id, seq, blockManager, hhook⟩ := h.executeBatch_error hexec
    exact .blockManager hhook
  | complete sampled => exact h.completeRound_error hsafe hexec

end PipelineInv

/-! ## Stale outputs -/

/-- The objects of a sequence, the engine's and each worker's, are as before. -/
def Untouched (id : SeqId) (e e' : PipelineEngine β) : Prop :=
  e'.replica.objs id = e.replica.objs id ∧
    ∀ (k : Nat) (w w' : StageWorker β), e.workers[k]? = some w → e'.workers[k]? = some w' →
      w'.replica.objs id = w.replica.objs id

/-- **A completion leaves a sequence alone that has been evicted since its batch was sent**, on the
    engine and on every worker. -/
theorem PipelineInv.discards (h : PipelineInv e) {sampled : SeqId → TokenId}
    (hsafe : overlapsSafely cfg e (.complete sampled) = true)
    (hexec : e.exec cfg (.complete sampled) = .ok e') {out : SchedulerOutputs}
    {rounds : List SchedulerOutputs} (hpublished : e.schedulerOutputQueue = out :: rounds)
    {id : SeqId} (hid : id ∈ out.batchIds) {later : SchedulerOutputs} (hlater : later ∈ rounds)
    (hpre : id ∈ later.preemptedSeqIds) : Untouched id e e' := by
  -- the sequence is still waiting
  have hwaiting : id ∈ e.scheduler.waiting := by
    have hevicted := h.evicted
    rw [hpublished, List.pairwise_cons] at hevicted
    exact hevicted.1 later hlater id hid hpre
  rcases e.completeRound_cases cfg sampled with
    hwait | ⟨out', batch, rounds', batches, hcompleting, hfinish⟩
  · cases hwait.symm.trans hexec
    refine ⟨rfl, fun k w w' hw hw' => ?_⟩
    cases hw.symm.trans hw'
    rfl
  cases hpublished.symm.trans hcompleting.published
  obtain ⟨hparts, -, -⟩ := PipelineEngine.finishRound_parts (hfinish.symm.trans hexec)
  refine ⟨congrArg Prod.fst (h.completing_objs hcompleting hparts (.inr hwaiting)), ?_⟩
  intro k w w' hw hw'
  have hmem : w ∈ e.workers := List.mem_of_getElem? hw
  have hcopy := h.completing_copy hcompleting hmem
    (begun_of_overlapsSafely hcompleting hsafe w hmem) hid
  obtain ⟨r, hcompleted, hstep⟩ := seq_eq_ok.mp (getElem?_of_mapM_ok hparts.workers hw hw')
  cases hstep
  have hview := Replica.onStepCompleted_view (h.answered_nodup hcompleting) hcompleted
  by_cases hanswered : id ∈ (answered out batch).batchIds
  · obtain ⟨m, hm, rfl⟩ := List.mem_map.mp hanswered
    have hsame := (hview.mem m hm).resolve_right fun hnot => hnot.1 (by
      rw [hcopy]
      exact h.waiting _ hwaiting)
    exact congrArg Prod.fst hsame.2
  · exact congrArg Prod.fst (hview.frame id hanswered)

/-- An engine before its first event. -/
def IsStart (e : PipelineEngine β) : Prop :=
  ∃ blockManager numWorkers, e = .start blockManager numWorkers

/-- **Stale outputs are discarded** in every run of harmless events, for every pipeline depth,
    policy and block manager, whatever the order of rounds, executions and completions.
    - If a round of the queue evicts a sequence of the batch that completes, the completion leaves
      the engine's and every worker's object of it as it is.
    - An event that raises an exception does not raise it in a sequence manager. -/
theorem stale_outputs_discarded (cfg : EngineConfig) {e : PipelineEngine β}
    (hreach : Reaches (fun event e => e.exec cfg event) IsStart
      (fun e event => overlapsSafely cfg e event = true) e) :
    (∀ sampled e' out rounds, overlapsSafely cfg e (.complete sampled) = true →
      e.exec cfg (.complete sampled) = .ok e' → e.schedulerOutputQueue = out :: rounds →
      ∀ id ∈ out.batchIds, (∃ later ∈ rounds, id ∈ later.preemptedSeqIds) → Untouched id e e') ∧
      ∀ event err, overlapsSafely cfg e event = true → e.exec cfg event = .error err →
        RaisedElsewhere cfg e event err := by
  have hinv : PipelineInv e := by
    refine hreach.invariant PipelineInv ?_ fun s a s' hs hsafe hexec => hs.exec hsafe hexec
    rintro _ ⟨blockManager, numWorkers, rfl⟩
    exact .start blockManager numWorkers
  refine ⟨?_, fun event err hsafe hexec => hinv.raisedElsewhere hsafe hexec⟩
  rintro sampled e' out rounds hsafe hexec hpublished id hid ⟨later, hlater, hpre⟩
  exact hinv.discards hsafe hexec hpublished hid hlater hpre

/-! ## Three stages -/

theorem threeStages_limit (n : Nat) (h : Scheduler.Policy.vllm 4 = .vllm n) : 4 ≤ n := by
  cases h
  decide

def threeStages : EngineConfig where
  scheduler := {
    policy := .vllm 4
    maxNumSeqs := 2
    maxModelLen := 4
    numPipelineStages := 3
    vllm_limit := threeStages_limit }
  blockSize := 2
  eosTokenId := none
  detokenize _ _ _ _ := ⟨[], [], 0, 0⟩
  padInputs := true

/-- Three workers and a paged cache of two blocks. -/
def twoBlocks : PipelineEngine PagedBlockManager := .start (.newVllm 2) 3

/-- Every worker begins its next batch. -/
def executeAll : List PipelineEvent := [.execute 0 0, .execute 1 0, .execute 2 0]

/-- The token 5 is sampled for every entry. -/
def completeOldest : PipelineEvent := .complete fun _ => 5

/-- Two prompts of two tokens are sent one after the other.  When the first has completed, its
    decode evicts the second, whose batch is still under way. -/
def evictedInFlight : List PipelineEvent :=
  [.addRequest ⟨0, [], [1, 2], 0, {}⟩, .schedule 9, .addRequest ⟨1, [], [3, 4], 1, {}⟩,
    .schedule 9] ++ executeAll ++ [completeOldest, .schedule 9] ++ executeAll ++ executeAll

theorem evictedInFlight_discarded :
    ∃ e e' out rounds, twoBlocks.run threeStages evictedInFlight = .ok e ∧
      e.schedulerOutputQueue = out :: rounds ∧ 1 ∈ out.batchIds ∧
      (∃ later ∈ rounds, 1 ∈ later.preemptedSeqIds) ∧
      e.exec threeStages completeOldest = .ok e' ∧ Untouched 1 e e' := by
  have hstate : ((twoBlocks.run threeStages evictedInFlight).map fun e =>
      (e.schedulerOutputQueue, overlapsSafely threeStages e completeOldest)) =
      .ok ([⟨[], [], [⟨1, 2⟩]⟩, ⟨[], [1], [⟨0, 0⟩]⟩], true) := by rfl
  have hend : ((twoBlocks.run threeStages (evictedInFlight ++ [completeOldest])).map
      (·.scheduler.waiting)) = .ok [1] := by rfl
  obtain ⟨e, hrun, hstate⟩ := map_eq_ok.mp hstate
  obtain ⟨hqueue, hsafe⟩ := Prod.mk.inj hstate
  obtain ⟨e', hend, -⟩ := map_eq_ok.mp hend
  have hexec : e.exec threeStages completeOldest = .ok e' := by
    rw [PipelineEngine.run, List.foldlM_append] at hend
    obtain ⟨e₁, hfirst, hlast⟩ := seq_eq_ok.mp hend
    cases hrun.symm.trans hfirst
    obtain ⟨e₂, hexec, hpure⟩ := seq_eq_ok.mp hlast
    cases hpure
    exact hexec
  refine ⟨e, e', _, _, hrun, hqueue, by decide, ⟨_, List.mem_cons_self, by decide⟩, hexec, ?_⟩
  have hreach : Reaches (fun event e => PipelineEngine.exec threeStages event e) IsStart
      (fun e event => overlapsSafely threeStages e event = true) e :=
    Reaches.foldlM (fun _ _ => id) (.init ⟨_, _, rfl⟩) (by decide +kernel) hrun
  exact (stale_outputs_discarded threeStages hreach).1 _ e' _ _ hsafe hexec hqueue 1 (by decide)
    ⟨_, List.mem_cons_self, by decide⟩

/-- The evicted sequence is admitted again before its first batch completes. -/
def readmittedInFlight : List PipelineEvent :=
  [.addRequest ⟨0, [], [1, 2], 0, {}⟩, .schedule 9, .addRequest ⟨1, [], [3, 4], 1, {}⟩,
    .schedule 9] ++ executeAll ++ [completeOldest, .schedule 9, .schedule 9] ++ executeAll ++
    executeAll ++ executeAll

/-- The output of the stale batch is taken for the new one: it advances the sequence on the engine
    and the workers.  When the new batch completes, the sequence is not `RUNNING` any more. -/
theorem readmittedInFlight_advances :
    ((twoBlocks.run threeStages readmittedInFlight).map fun e =>
        (e.schedulerOutputQueue, (e.replica.objs 1).promptTokensProcessed)) =
      .ok ([⟨[], [], [⟨1, 2⟩]⟩, ⟨[], [1], [⟨0, 0⟩]⟩, ⟨[], [], [⟨1, 2⟩]⟩], 0) ∧
    ((twoBlocks.run threeStages (readmittedInFlight ++ [completeOldest])).map fun e =>
        ((e.replica.objs 1).promptTokensProcessed,
          e.workers.map fun w => (w.replica.objs 1).promptTokensProcessed)) =
      .ok (2, [2, 2, 2]) ∧
    twoBlocks.run threeStages (readmittedInFlight ++ List.replicate 3 completeOldest) =
      .error (.assertionError "seq.is_running()") := by
  refine ⟨?_, ?_, ?_⟩ <;> rfl

end VAttention.Pipeline
