import VAttention.Engine.Preemption
import VAttention.Scheduler.Paging
import VAttention.Worker.Paging

/-!
# Slots of the paged cache in every run

The scheduler and every worker have a paged manager each.  In every run of an engine with the
vLLM, Sarathi or simple chunking policy both partition the blocks, the scheduler's never raises,
and the tables reach the contexts of the batch.  So `begin_forward` finds a slot for every token
and gives no slot to two sequences.

## Layers

- **Layer A**: the invariant, and what each call does to it.
- **Layer B**: the slots of a step.
-/

namespace VAttention.Engine

open VAttention.Core VAttention.Lib VAttention.Scheduler VAttention.Manager VAttention.Worker
open VAttention.Executor
open PagedBlockManager (Partitions blockError)

variable {γ : Type} [CacheEngine γ] {cfg : EngineConfig} {numBlocks : Nat} {inp : StepInput}
  {out : SchedulerOutputs} {queue : List SeqId} {e e₁ e' : BaseLLMEngine PagedBlockManager γ}
  {w w₁ w' : BaseWorker PagedBlockManager γ}

/-! ## Layer A: the invariant -/

/-- An engine before its first call, with the given number of blocks. -/
def IsPagedStart (numBlocks : Nat) (e : BaseLLMEngine PagedBlockManager γ) : Prop :=
  ∃ cacheEngines, e = .start (.newVllm numBlocks) cacheEngines

/-- Invariant of the runs. -/
structure PagedInv (cfg : EngineConfig) (numBlocks : Nat)
    (e : BaseLLMEngine PagedBlockManager γ) : Prop where
  scheduler : PagedState numBlocks e.replica.objs e.scheduler
  workers : ∀ w ∈ e.workers, ReplicaPaged numBlocks w.replica
  inBlocks : ∀ id ∈ e.scheduler.waiting ++ e.scheduler.running,
    InBlocks cfg.blockSize (e.replica.objs id)

/-- The part of the invariant that does not ask how long a block is. -/
structure PagedTables (numBlocks : Nat) (e : BaseLLMEngine PagedBlockManager γ) : Prop where
  scheduler : PagedState numBlocks e.replica.objs e.scheduler
  workers : ∀ w ∈ e.workers, ReplicaPaged numBlocks w.replica

omit [CacheEngine γ] in
theorem PagedInv.tables (h : PagedInv cfg numBlocks e) : PagedTables numBlocks e :=
  ⟨h.scheduler, h.workers⟩

omit [CacheEngine γ] in
theorem PagedTables.start (hstart : IsPagedStart numBlocks e) : PagedTables numBlocks e := by
  obtain ⟨cacheEngines, rfl⟩ := hstart
  have hnone : ∀ id : SeqId, id ∉ (PagedBlockManager.newVllm numBlocks).blockTables :=
    AList.notMem_empty
  -- there are no tables yet
  have hlookup : ∀ id table,
      (PagedBlockManager.newVllm numBlocks).blockTables.lookup id ≠ some table := by
    intro id table h
    rw [AList.lookup_eq_none.mpr (hnone id)] at h
    cases h
  refine ⟨⟨List.nodup_nil, PagedBlockManager.partitions_newVllm numBlocks, rfl, fun id => ?_,
    fun id table h => absurd h (hlookup id table)⟩, fun w hw => ?_⟩
  · exact iff_of_false (hnone id) List.not_mem_nil
  · obtain ⟨cacheEngine, -, rfl⟩ := List.mem_map.mp hw
    exact ⟨PagedBlockManager.partitions_newVllm numBlocks, rfl, fun id h => absurd h (hnone id),
      fun id table h => absurd h (hlookup id table)⟩

omit [CacheEngine γ] in
theorem PagedInv.start (hstart : IsPagedStart numBlocks e) : PagedInv cfg numBlocks e := by
  have h := PagedTables.start hstart
  refine ⟨h.scheduler, h.workers, ?_⟩
  obtain ⟨cacheEngines, rfl⟩ := hstart
  nofun

omit [CacheEngine γ] in
theorem EngineInv.addRequest_objs {req : Request} (hinv : EngineInv e)
    (hexec : e.addRequest cfg req = .ok e') :
    ∀ id ∈ e.scheduler.waiting ++ e.scheduler.running,
      e'.replica.objs id = e.replica.objs id := fun _ hid =>
  have hadd := addRequest_view hexec
  hadd.of_ne (hinv.ne_of_mem hadd hid)

omit [CacheEngine γ] in
theorem PagedTables.addRequest {req : Request} (hinv : EngineInv e)
    (h : PagedTables numBlocks e) (hexec : e.addRequest cfg req = .ok e') :
    PagedTables numBlocks e' := by
  have hadd := addRequest_view hexec
  have hnodup := (hinv.addRequest hadd).nodup
  constructor
  case scheduler =>
    rw [hadd.scheduler] at hnodup ⊢
    refine ⟨hnodup, h.scheduler.partition, h.scheduler.perPrompt, h.scheduler.owners, ?_⟩
    intro id table hlookup
    -- only running sequences have tables, and the new one is not running
    have hrunning : id ∈ e.scheduler.running := by
      rw [← h.scheduler.owners, ← AList.lookup_isSome]
      exact Option.isSome_of_mem hlookup
    rw [hinv.addRequest_objs hexec id (List.mem_append_right _ hrunning)]
    exact h.scheduler.backed id table hlookup
  case workers =>
    obtain ⟨r, -, hexec⟩ := seq_eq_ok.mp hexec
    obtain ⟨workers, hworkers, hexec⟩ := seq_eq_ok.mp hexec
    cases hexec
    intro w' hw'
    obtain ⟨w, hw, haddSeq⟩ := exists_mem_of_mapM_ok hworkers w' hw'
    obtain ⟨r', hreplica, haddSeq⟩ := seq_eq_ok.mp haddSeq
    cases haddSeq
    exact addSeq_paged (h.workers w hw) hreplica

omit [CacheEngine γ] in
theorem PagedInv.addRequest {req : Request} (hblock : 0 < cfg.blockSize) (hinv : EngineInv e)
    (h : PagedInv cfg numBlocks e) (hexec : e.addRequest cfg req = .ok e') :
    PagedInv cfg numBlocks e' := by
  have hadd := addRequest_view hexec
  have htables := h.tables.addRequest hinv hexec
  refine ⟨htables.scheduler, htables.workers, fun id hid => ?_⟩
  rw [hadd.scheduler] at hid
  simp only [SchedulerState.addSeq, List.mem_append, List.mem_singleton] at hid
  by_cases hnew : id = req.seqId
  · rw [hnew, hadd.objs_self]
    exact ⟨Sequence.blocksPacked_new _ _ _ hblock _ _ _, rfl⟩
  · have hold : id ∈ e.scheduler.waiting ++ e.scheduler.running := by
      simpa [hnew] using hid
    rw [hinv.addRequest_objs hexec id hold]
    exact h.inBlocks id hold

/-- The scheduling part of a step, both exits. -/
theorem PagedTables.scheduleStep (hpolicy : cfg.scheduler.policy.evictsYoungest = true)
    (h : PagedTables numBlocks e) :
    Yields (fun r => PagedState numBlocks r.1.replica.objs r.1.scheduler ∧
        BatchCovered r.1.replica.objs r.1.scheduler r.2.1)
      NotBlockError (e.scheduleStep cfg inp) := by
  unfold BaseLLMEngine.scheduleStep
  split
  · exact rfl
  · rename_i freeBlocks hfree
    have hrun := schedule_paged inp.now hpolicy h.scheduler
    exact hrun.seq fun _ hr => hr

/-- A worker that has begun a step. -/
theorem beginStep_paged (h : ReplicaPaged numBlocks w.replica)
    (hbegin : w.beginStep out queue = .ok w₁) :
    ReplicaPaged numBlocks w₁.replica ∧ ∀ id ∈ out.batchIds, HasTable w₁.replica id := by
  obtain ⟨r, hround, hbegin⟩ := seq_eq_ok.mp hbegin
  obtain ⟨c, -, hbegin⟩ := seq_eq_ok.mp hbegin
  cases hbegin
  exact onSchedule_paged (by exact h) hround

theorem executeModel_paged (h : ReplicaPaged numBlocks w.replica) (hbatch : out.batchIds.Nodup)
    (hexecute : w.executeModel cfg.padInputs out queue inp.sampled = .ok w') :
    ReplicaPaged numBlocks w'.replica := by
  obtain ⟨w₁, c, hbegin, -, hcompleted, -⟩ := executeModel_eq_ok hexecute
  obtain ⟨hpaged, htables⟩ := beginStep_paged h hbegin
  exact onStepCompleted_paged hpaged hbatch htables hcompleted

theorem PagedInv.inBlocks_step (hblock : 0 < cfg.blockSize) (hinv : EngineInv e)
    (h : PagedInv cfg numBlocks e) (hschedule : e.scheduleStep cfg inp = .ok (e₁, out, queue))
    (hfinishes : Finishes cfg inp out e₁ e') :
    ∀ id ∈ e'.scheduler.waiting ++ e'.scheduler.running,
      InBlocks cfg.blockSize (e'.replica.objs id) := by
  intro id hid
  rcases List.mem_append.mp hid with hid | hid
  · rcases (hinv.waiting_cases hschedule hfinishes hid).2 with ⟨hold, hsame⟩ | ⟨hold, -, hobjs⟩
    · rw [hsame]
      exact h.inBlocks id (List.mem_append_left _ hold)
    · have hblocks := h.inBlocks id (List.mem_append_right _ hold)
      rw [hobjs]
      split_ifs
      · exact hblocks
      · exact hblocks.recomputed
  · obtain ⟨-, ⟨hold, hsame⟩ | ⟨m, hm, rfl, hadvance, -⟩⟩ :=
      hinv.running_cases hschedule hfinishes hid
    · rw [hsame]
      exact h.inBlocks id (List.mem_append_right _ hold)
    · have hspec := BaseLLMEngine.scheduleStep_spec hinv.nodup hschedule
      have hold := (hspec.objs_of_mem hinv.nodup
        (List.mem_append_right _ (hspec.batch_running _ (List.mem_map_of_mem hm)))).1
      exact ((h.inBlocks _ hold).entering out _).advance (engineHooks_textOnly _) hblock hadvance

/-- The scheduler's tables back the sequences after the step. -/
theorem PagedTables.scheduler_step (hinv : EngineInv e)
    (hschedule : e.scheduleStep cfg inp = .ok (e₁, out, queue))
    (hstate : PagedState numBlocks e₁.replica.objs e₁.scheduler)
    (hcovered : BatchCovered e₁.replica.objs e₁.scheduler out)
    (hfinishes : Finishes cfg inp out e₁ e') :
    PagedState numBlocks e'.replica.objs e'.scheduler := by
  rcases hfinishes with ⟨-, rfl⟩ | ⟨hempty, hview⟩
  · exact hstate
  rw [hview.scheduler]
  refine hstate.onStepCompleted fun id hrunning hnot table hlookup => ?_
  have hmem : id ∈ e'.scheduler.running := by
    rw [hview.scheduler]
    exact List.mem_filter.mpr ⟨hrunning, by simp [hnot]⟩
  have hobjs := (hinv.live_of_schedule hschedule (List.mem_append_right _ hrunning)).2
  obtain ⟨-, ⟨-, hsame⟩ | ⟨m, hm, rfl, hadvance, -⟩⟩ :=
    hinv.running_cases hschedule (.inr ⟨hempty, hview⟩) hmem
  -- untouched by the batch
  · rw [hsame, ← hobjs]
    exact hstate.backed id table hlookup
  -- in the batch: its table covered it before it got its token
  · obtain ⟨table', hlookup', hcovers⟩ := hcovered m.seqId (List.mem_map_of_mem hm)
    obtain rfl : table' = table := Option.some.inj (hlookup'.symm.trans hlookup)
    rw [hobjs] at hcovers
    exact advance_backs (engineHooks_textOnly _) (covers_entering hcovers) hadvance

/-- What a successful step is for the invariants: scheduling, and then the rest. -/
theorem PagedTables.step (hinv : EngineInv e) (h : PagedTables numBlocks e)
    (hschedule : e.scheduleStep cfg inp = .ok (e₁, out, queue))
    (hstate : PagedState numBlocks e₁.replica.objs e₁.scheduler)
    (hcovered : BatchCovered e₁.replica.objs e₁.scheduler out)
    (hrest : out.isEmpty = true ∧ e' = e₁ ∨
      out.isEmpty = false ∧ e₁.executeStep cfg inp out queue = .ok e') :
    Finishes cfg inp out e₁ e' ∧ PagedTables numBlocks e' := by
  have hspec := BaseLLMEngine.scheduleStep_spec hinv.nodup hschedule
  have hworkers := BaseLLMEngine.scheduleStep_workers hschedule
  have hfinishes : Finishes cfg inp out e₁ e' := hrest.imp_right fun ⟨hempty, hexecute⟩ =>
    ⟨hempty, executeStep_view (hspec.wellFormed hinv.nodup) hexecute⟩
  refine ⟨hfinishes, PagedTables.scheduler_step hinv hschedule hstate hcovered hfinishes,
    fun w' hw' => ?_⟩
  rcases hrest with ⟨-, rfl⟩ | ⟨-, hexecute⟩
  · exact h.workers w' (hworkers ▸ hw')
  · obtain ⟨-, -, hmap, -, -⟩ := BaseLLMEngine.executeStep_eq_ok hexecute
    obtain ⟨w, hw, hmodel⟩ := exists_mem_of_mapM_ok hmap w' hw'
    exact executeModel_paged (h.workers w (hworkers ▸ hw)) hspec.batch_nodup hmodel

/-- Every call keeps the tables. -/
theorem PagedTables.exec {event : Event} (hpolicy : cfg.scheduler.policy.evictsYoungest = true)
    (hinv : EngineInv e) (h : PagedTables numBlocks e) (hexec : e.exec cfg event = .ok e') :
    PagedTables numBlocks e' := by
  cases event with
  | addRequest req => exact h.addRequest hinv hexec
  | step inp =>
    obtain ⟨e₁, out, queue, hschedule, hrest⟩ := BaseLLMEngine.exec_step_eq_ok hexec
    obtain ⟨hstate, hcovered⟩ := (h.scheduleStep hpolicy).of_eq_ok hschedule
    exact (h.step hinv hschedule hstate hcovered hrest).2

/-- **Step lemma**: every call keeps the invariant. -/
theorem PagedInv.exec {event : Event} (hpolicy : cfg.scheduler.policy.evictsYoungest = true)
    (hblock : 0 < cfg.blockSize) (hinv : EngineInv e) (h : PagedInv cfg numBlocks e)
    (hexec : e.exec cfg event = .ok e') : PagedInv cfg numBlocks e' := by
  cases event with
  | addRequest req => exact h.addRequest hblock hinv hexec
  | step inp =>
    obtain ⟨e₁, out, queue, hschedule, hrest⟩ := BaseLLMEngine.exec_step_eq_ok hexec
    obtain ⟨hstate, hcovered⟩ := (h.tables.scheduleStep hpolicy).of_eq_ok hschedule
    obtain ⟨hfinishes, htables⟩ := h.tables.step hinv hschedule hstate hcovered hrest
    exact ⟨htables.scheduler, htables.workers, h.inBlocks_step hblock hinv hschedule hfinishes⟩

/-! ## Layer B: the slots of a step -/

/-- What a worker finds when it runs the model on a batch: its manager partitions the blocks, every
    entry has a table that reaches its context, and once `_prepare_inputs` has returned,
    `begin_forward` returns.  No slot is given out twice, in the batch or to two sequences. -/
structure SlotsSound (cfg : EngineConfig) (numBlocks : Nat) (out : SchedulerOutputs)
    (r : Replica PagedBlockManager) : Prop where
  partition : Partitions numBlocks r.ext
  exclusive : ExclusiveSlots cfg.blockSize r.ext
  total : ∃ l, pagedMetadataList out r = .ok l ∧
    (∀ m ∈ l, ∃ table, m.blockTable = some table ∧
      VAttnCacheEngine.contextLen m.toSequenceMetadata ≤ table.length * cfg.blockSize) ∧
    ∀ rows, prepareInputs cfg.padInputs (r.metadataList out) = .ok rows →
      ∃ f, beginForward cfg.blockSize l = .ok f ∧ f.slots.Nodup

theorem PagedInv.slotsSound (hblock : 0 < cfg.blockSize) (hinv : EngineInv e)
    (h : PagedInv cfg numBlocks e) (hschedule : e.scheduleStep cfg inp = .ok (e₁, out, queue))
    (hw : w ∈ e₁.workers) (hbegin : w.beginStep out queue = .ok w₁) :
    SlotsSound cfg numBlocks out w₁.replica := by
  have hspec := BaseLLMEngine.scheduleStep_spec hinv.nodup hschedule
  have hworkers := BaseLLMEngine.scheduleStep_workers hschedule
  obtain ⟨hpaged, htables⟩ := beginStep_paged (h.workers w (hworkers ▸ hw)) hbegin
  -- the worker's copies of the batch
  have hobjs : ∀ id ∈ out.batchIds,
      InBlocks cfg.blockSize (w₁.replica.objs id) ∧ Regular (w₁.replica.objs id) := by
    intro id hid
    obtain ⟨m, hm, rfl⟩ := List.mem_map.mp hid
    have hold := (hspec.objs_of_mem hinv.nodup
      (List.mem_append_right _ (hspec.batch_running _ hid))).1
    obtain ⟨hregular, -, hcopy⟩ := hinv.beginStep_objs hschedule hw hbegin hm
    have hentering := (h.inBlocks _ hold).entering out m.seqId
    rw [hcopy]
    exact ⟨hentering.congr rfl rfl rfl, regular_core.mpr (hregular.entering out m.seqId)⟩
  refine ⟨hpaged.partition, exclusiveSlots_of_partitions hblock hpaged.partition, _,
    pagedMetadataList_ok htables, fun entry hentry => ?_, fun rows hrows => ?_⟩
  · obtain ⟨m, hm, rfl⟩ := List.mem_map.mp hentry
    have hid : m.seqId ∈ out.batchIds := List.mem_map_of_mem hm
    obtain ⟨table, hlookup, hcovers⟩ := htables m.seqId hid
    obtain ⟨hblocks, hregular⟩ := hobjs m.seqId hid
    exact ⟨table, hlookup, hblocks.contextLen_le hblock hregular hcovers _⟩
  · exact beginForward_paged hblock hpaged hspec.batch_nodup htables hobjs hrows

/-- **Paged slots are total and exclusive**: for the vLLM, Sarathi and simple chunking policies and
    any number of blocks, in every state that a run reaches,

    - the free list and the tables of the scheduler partition the blocks,
    - in the next step neither `allocate` nor `append_slot` raises in the scheduler, and the blocks
      are partitioned again when it has scheduled,
    - the scheduler's table of every entry of the batch reaches its context, and no two sequences
      share a slot,
    - and so do the tables of every worker that `begin_forward` reads. -/
theorem paged_slots_total_exclusive (cfg : EngineConfig)
    (hpolicy : cfg.scheduler.policy.evictsYoungest = true) (hblock : 0 < cfg.blockSize)
    (hreach : ReachesFrom cfg (IsPagedStart numBlocks) (fun _ _ => True) e) (inp : StepInput) :
    Partitions numBlocks e.scheduler.blockManager ∧
    (∀ error, e.scheduleStep cfg inp = .error error → blockError error = false) ∧
    ∀ e₁ out queue, e.scheduleStep cfg inp = .ok (e₁, out, queue) →
      Partitions numBlocks e₁.scheduler.blockManager ∧
      (∀ m ∈ out.scheduledSeqMetadataList, ∃ table,
        e₁.scheduler.blockManager.blockTables.lookup m.seqId = some table ∧
        VAttnCacheEngine.contextLen ⟨e₁.replica.objs m.seqId, m.promptChunkLen⟩ ≤
          table.length * cfg.blockSize) ∧
      ExclusiveSlots cfg.blockSize e₁.scheduler.blockManager ∧
      ∀ w ∈ e₁.workers, ∀ w₁, w.beginStep out queue = .ok w₁ →
        SlotsSound cfg numBlocks out w₁.replica := by
  obtain ⟨hinv, h⟩ := reaches_invariant (PagedInv cfg numBlocks)
    (fun e he => ⟨⟨_, he⟩, .start he⟩)
    (fun _ _ _ hinv h _ hexec => h.exec hpolicy hblock hinv hexec) hreach
  have hschedule : Yields _ _ (e.scheduleStep cfg inp) := h.tables.scheduleStep hpolicy
  refine ⟨h.scheduler.partition, fun error => hschedule.of_eq_error, fun e₁ out queue hok => ?_⟩
  obtain ⟨hstate, hcovered⟩ := hschedule.of_eq_ok hok
  refine ⟨hstate.partition, fun m hm => ?_, exclusiveSlots_of_partitions hblock hstate.partition,
    fun w hw w₁ hbegin => h.slotsSound hblock hinv hok hw hbegin⟩
  -- an entry is covered by its table, and its blocks hold its tokens
  have hspec := BaseLLMEngine.scheduleStep_spec hinv.nodup hok
  have hid : m.seqId ∈ out.batchIds := List.mem_map_of_mem hm
  have hmem := List.mem_append_right e₁.scheduler.waiting (hspec.batch_running _ hid)
  obtain ⟨hlive, hobjs⟩ := hinv.live_of_schedule hok hmem
  obtain ⟨table, hlookup, hcovers⟩ := hcovered m.seqId hid
  have hblocks : InBlocks cfg.blockSize (e₁.replica.objs m.seqId) := by
    rw [hobjs]
    exact h.inBlocks _ (hspec.objs_of_mem hinv.nodup hmem).1
  exact ⟨table, hlookup, hblocks.contextLen_le hblock hlive.regular hcovers _⟩

/-- The slots that `begin_forward` gives out on a worker. -/
def batchSlots (cfg : EngineConfig) (out : SchedulerOutputs) (w : BaseWorker PagedBlockManager γ) :
    Option (List Int) :=
  (pagedMetadataList out w.replica).toOption.bind fun l =>
    (beginForward cfg.blockSize l).toOption.map ForwardMetadata.slots

/-- Two prompts of two tokens over three blocks get the four slots of two of them. -/
theorem twoPrompts_slots :
    ∃ e e₁ out queue workers, (pagedEngine 3).run vllmConfig (evictingRun.take 2) = .ok e ∧
      e.scheduleStep vllmConfig ⟨9, fun _ => 5⟩ = .ok (e₁, out, queue) ∧
      e₁.workers.mapM (BaseWorker.beginStep out queue) = .ok workers ∧
      workers.map (batchSlots vllmConfig out) = [some [4, 5, 2, 3]] ∧
      Partitions 3 e₁.scheduler.blockManager ∧
      ∀ w ∈ workers, SlotsSound vllmConfig 3 out w.replica := by
  have hstate : ((pagedEngine 3).run vllmConfig (evictingRun.take 2)).bind (fun e =>
      (e.scheduleStep vllmConfig ⟨9, fun _ => 5⟩).bind fun (e₁, out, queue) =>
        (e₁.workers.mapM (BaseWorker.beginStep out queue)).map fun workers =>
          workers.map (batchSlots vllmConfig out)) = .ok [some [4, 5, 2, 3]] := by rfl
  obtain ⟨e, hrun, hrest⟩ := seq_eq_ok.mp hstate
  obtain ⟨⟨e₁, out, queue⟩, hschedule, hrest⟩ := seq_eq_ok.mp hrest
  obtain ⟨workers, hworkers, hslots⟩ := map_eq_ok.mp hrest
  have hreach : ReachesFrom vllmConfig (IsPagedStart 3) (fun _ _ => True) e :=
    Reaches.foldlM (fun _ _ _ => trivial) (.init ⟨_, rfl⟩) (checkGuards_true _ _ _) hrun
  obtain ⟨-, -, hstep⟩ := paged_slots_total_exclusive vllmConfig rfl (by decide) hreach
    ⟨9, fun _ => 5⟩
  obtain ⟨hpartition, -, -, hsound⟩ := hstep e₁ out queue hschedule
  refine ⟨e, e₁, out, queue, workers, hrun, hschedule, hworkers, hslots, hpartition, fun w hw => ?_⟩
  obtain ⟨w₀, hw₀, hbegin⟩ := exists_mem_of_mapM_ok hworkers w hw
  exact hsound w₀ hw₀ w hbegin

end VAttention.Engine
