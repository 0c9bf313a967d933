import VAttention.Engine.Readmission
import VAttention.Pipeline.Stale

/-!
# The bounds of Sarathi's batches

Over a single stage, every batch of Sarathi with a fixed chunk size keeps the token budget: at
most one prompt, with a chunk between one and its remaining tokens, and no more tokens than a
chunk has.  A pipeline schedules while other batches are under way.  If two of them complete
before the next round, their decodes come together and can exceed the chunk size; the next prompt
then gets a negative chunk.  The budget holds in every round that finds no more paused decodes
than a chunk has tokens.
-/

namespace VAttention.Pipeline

open VAttention.Core VAttention.Lib VAttention.Scheduler VAttention.Manager VAttention.Engine
open VAttention.Worker

/-! ## The objects of the pipeline engine -/

theorem metered_recomputed (s : Sequence) : Metered (recomputed s) := by
  refine ⟨?_, nofun⟩
  simp only [remainingPrompt, recomputed, Sequence.getPromptLen]
  omega

/-- A chunk does not go beyond the prompt. -/
theorem metered_advance {μ : Type} {hooks : ManagerHooks μ} (htext : TextOnly hooks)
    (s s' : Sequence) (t : TokenId) (chunkLen : Int) (h : advance hooks t chunkLen s = .ok s')
    (hs : Metered s) : Metered s' := by
  rcases advance_eq_ok h with ⟨-, -, hle, rfl⟩ | ⟨hfinished, hstop⟩
  · simp only [Metered, remainingPrompt, Sequence.getPromptLen, beq_iff_eq]
    refine ⟨by omega, fun hdone => by omega⟩
  · -- an output token does not touch the prompt
    obtain ⟨-, -, text, status, rfl⟩ := checkStop_spec (decoded_isFinished htext) hstop
    have hcore := core_decoded htext (s := s) (t := t)
    have hremaining : remainingPrompt (core (decoded hooks t s)) = remainingPrompt s := by
      rw [hcore]
      rfl
    have hzero := hs.2 hfinished
    have hleft : remainingPrompt { decoded hooks t s with outputText := text, status := status } =
        0 := hremaining.trans hzero
    exact ⟨hleft.ge, fun _ => hleft⟩

variable {β γ : Type} [BlockSpaceManager β] [CacheEngine γ] {cfg : EngineConfig}

/-- **Step lemma**: every event keeps the count of the prompt tokens. -/
theorem PipelineEngine.exec_metered {e e' : PipelineEngine β} {event : PipelineEvent}
    (h : ∀ id, Metered (e.replica.objs id)) (hexec : e.exec cfg event = .ok e') :
    ∀ id, Metered (e'.replica.objs id) := by
  cases event with
  | addRequest req =>
    obtain ⟨replica, hadd, hexec⟩ := seq_eq_ok.mp hexec
    obtain ⟨workers, -, hexec⟩ := seq_eq_ok.mp hexec
    cases hexec
    intro id
    obtain ⟨-, rfl⟩ := addSeq_eq_ok hadd
    show Metered (Function.update e.replica.objs req.seqId (req.toSequence cfg) id)
    by_cases hid : id = req.seqId
    · rw [hid, Function.update_self]
      refine ⟨?_, nofun⟩
      simp [remainingPrompt, Request.toSequence, Sequence.new, Sequence.getPromptLen]
    · rw [Function.update_of_ne hid]
      exact h id
  | schedule now =>
    obtain ⟨objs, out, hparts⟩ := scheduleRound_parts hexec
    have hobjs : ∀ id, Metered (objs id) :=
      schedule_forall_objs Metered (fun _ hs => hs) hparts.schedule h
    rcases hparts.replica with ⟨-, hreplica⟩ | hreplica
    · rw [hreplica]
      exact hobjs
    · exact Replica.onSchedule_forall_objs Metered (fun s _ => metered_recomputed s)
        (fun _ hs => hs) hreplica hobjs
  | execute worker freeBlocks =>
    have hexec : e.executeBatch worker freeBlocks = .ok e' := hexec
    unfold executeBatch at hexec
    split at hexec
    · cases hexec
      exact h
    · obtain ⟨w, -, hexec⟩ := seq_eq_ok.mp hexec
      cases hexec
      exact h
  | complete sampled =>
    have hexec : e.completeRound cfg sampled = .ok e' := hexec
    rcases completeRound_cases cfg sampled e with hwait | ⟨out, batch, rounds, batches, -, hfinish⟩
    · rw [hwait] at hexec
      cases hexec
      exact h
    · rw [hfinish] at hexec
      obtain ⟨hparts, -, -⟩ := finishRound_parts hexec
      exact Replica.onStepCompleted_forall_objs Metered
        (metered_advance (engineHooks_textOnly cfg.detokenize)) hparts.replica h

/-! ## The bounds -/

/-- **The bounds of Sarathi's batches**, for every fixed chunk size, block manager and cache
    engine.
    - Without pipelining, in every state that a run reaches, every call of `schedule` returns a
      batch within the bounds, if the chunk size is not negative.
    - With pipelining, in every state that any order of rounds, executions and completions
      reaches, it does if no more running decodes are paused than a chunk has tokens. -/
theorem sarathi_batches_bounded (cfg : EngineConfig) {chunkSize : Int}
    (hpolicy : cfg.scheduler.policy = .sarathi (.fixed chunkSize)) :
    (0 ≤ chunkSize → ∀ e : BaseLLMEngine β γ,
      ReachesFrom cfg Engine.IsStart (fun _ _ => True) e →
      ∀ now objs' s' out,
        schedule cfg.scheduler now e.replica.objs (schedulerAtStep e) = .ok (objs', s', out) →
        BatchBounds chunkSize e.replica.objs out) ∧
    ∀ e : PipelineEngine β,
      Reaches (fun event e => e.exec cfg event) IsStart (fun _ _ => True) e →
      (pausedDecodes e.replica.objs e.scheduler.running : Int) ≤ chunkSize →
      ∀ now objs' s' out,
        schedule cfg.scheduler now e.replica.objs e.scheduler = .ok (objs', s', out) →
        BatchBounds chunkSize e.replica.objs out := by
  constructor
  · intro hnonneg e hreach now objs' s' out hschedule
    obtain ⟨hinv, hchunk⟩ := chunkInv_of_reaches hreach
    -- the running sequences are no more than a chunk has tokens, so neither are the decodes
    have hdecodes : (pausedDecodes e.replica.objs e.scheduler.running : Int) ≤ chunkSize := by
      have hlen := hchunk.length chunkSize hpolicy
      have hle : pausedDecodes e.replica.objs e.scheduler.running ≤ e.scheduler.running.length :=
        List.countP_le_length
      omega
    exact schedule_batchBounds (s := schedulerAtStep e) hpolicy hdecodes
      (fun id hid => hinv.remainingPrompt hid) hschedule
  · intro e hreach hdecodes now objs' s' out hschedule
    have hmetered : ∀ id, Metered (e.replica.objs id) := by
      refine hreach.invariant (fun e : PipelineEngine β => ∀ id, Metered (e.replica.objs id)) ?_
        fun _ _ _ h _ hexec => PipelineEngine.exec_metered h hexec
      rintro _ ⟨blockManager, numWorkers, rfl⟩ id
      exact ⟨le_rfl, nofun⟩
    exact schedule_batchBounds hpolicy hdecodes (fun id _ => hmetered id) hschedule

/-! ### Two stages -/

/-- Sarathi with chunks of one token over two stages. -/
def twoStageSarathi : EngineConfig where
  scheduler := {
    policy := .sarathi (.fixed 1)
    maxNumSeqs := 3
    maxModelLen := 8
    numPipelineStages := 2
    vllm_limit := by
      rintro n ⟨⟩ }
  blockSize := 2
  eosTokenId := none
  detokenize _ _ _ _ := ⟨[], [], 0, 0⟩
  padInputs := true

/-- Two workers and a paged cache of eight blocks. -/
def eightBlocks : PipelineEngine PagedBlockManager := .start (.newVllm 8) 2

/-- Three prompts of one token.  Two of them are sent one after the other, and both complete. -/
def bothComplete : List PipelineEvent :=
  [.addRequest ⟨0, [], [1], 0, {}⟩, .addRequest ⟨1, [], [2], 1, {}⟩,
    .addRequest ⟨2, [], [3], 2, {}⟩, .schedule 9, .schedule 9, .execute 0 0, .execute 1 0,
    .execute 0 0, .execute 1 0, completeOldest, completeOldest]

/-- After the first of the two has completed, the next round has one decode. -/
theorem oneComplete_bounded :
    ∃ e out, eightBlocks.run twoStageSarathi bothComplete.dropLast = .ok e ∧
      (∃ objs' s', schedule twoStageSarathi.scheduler 9 e.replica.objs e.scheduler =
        .ok (objs', s', out)) ∧
      out.scheduledSeqMetadataList = [⟨0, 0⟩] ∧ BatchBounds 1 e.replica.objs out := by
  have hstate : (eightBlocks.run twoStageSarathi bothComplete.dropLast).bind (fun e =>
      (schedule twoStageSarathi.scheduler 9 e.replica.objs e.scheduler).map fun (_, _, out) =>
        (out.scheduledSeqMetadataList, pausedDecodes e.replica.objs e.scheduler.running)) =
      .ok ([⟨0, 0⟩], 1) := by
    decide +kernel
  obtain ⟨e, hrun, hrest⟩ := seq_eq_ok.mp hstate
  obtain ⟨⟨objs', s', out⟩, hschedule, hend⟩ := map_eq_ok.mp hrest
  obtain ⟨hbatch, hdecodes⟩ := Prod.mk.inj hend
  refine ⟨e, out, hrun, ⟨objs', s', hschedule⟩, hbatch, ?_⟩
  have hreach : Reaches (fun event e => PipelineEngine.exec twoStageSarathi event e) IsStart
      (fun _ _ => True) e :=
    Reaches.foldlM (fun _ _ _ => trivial) (.init ⟨_, _, rfl⟩) (checkGuards_true _ _ _) hrun
  exact (sarathi_batches_bounded (γ := ReportingCacheEngine) twoStageSarathi rfl).2 e hreach
    (by rw [hdecodes]; decide) 9 objs' s' out hschedule

/-- After both have completed, the round has two decodes, and the third prompt gets the chunk
    `min(1, 1 - 2)`. -/
theorem bothComplete_exceeds_chunk :
    ∃ e out, eightBlocks.run twoStageSarathi bothComplete = .ok e ∧
      (∃ objs' s', schedule twoStageSarathi.scheduler 9 e.replica.objs e.scheduler =
        .ok (objs', s', out)) ∧
      out.scheduledSeqMetadataList = [⟨0, 0⟩, ⟨1, 0⟩, ⟨2, -1⟩] ∧ out.numBatchedTokens = 3 ∧
      (e.replica.objs 2).promptProcessingFinished = false ∧
      ¬ BatchBounds 1 e.replica.objs out := by
  have hstate : (eightBlocks.run twoStageSarathi bothComplete).bind (fun e =>
      (schedule twoStageSarathi.scheduler 9 e.replica.objs e.scheduler).map fun (_, _, out) =>
        (out.scheduledSeqMetadataList, out.numBatchedTokens,
          (e.replica.objs 2).promptProcessingFinished)) =
      .ok ([⟨0, 0⟩, ⟨1, 0⟩, ⟨2, -1⟩], 3, false) := by
    decide +kernel
  obtain ⟨e, hrun, hrest⟩ := seq_eq_ok.mp hstate
  obtain ⟨⟨objs', s', out⟩, hschedule, hend⟩ := map_eq_ok.mp hrest
  obtain ⟨hbatch, hend⟩ := Prod.mk.inj hend
  obtain ⟨htotal, hopen⟩ := Prod.mk.inj hend
  refine ⟨e, out, hrun, ⟨objs', s', hschedule⟩, hbatch, htotal, hopen, fun hbounds => ?_⟩
  have hle := hbounds.total
  rw [htotal] at hle
  exact absurd hle (by decide)

end VAttention.Pipeline
