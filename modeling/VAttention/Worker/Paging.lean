import VAttention.Executor.SlotMapping
import VAttention.Manager.Agreement
import VAttention.Worker.Context

/-!
# The paged manager of a worker

Every worker repeats the scheduler's decisions on a block manager of its own, and its tables are
those that `begin_forward` reads.  The worker asks for nothing before it calls `allocate` and
`append_slot`.  But if the calls return, its blocks are partitioned and its tables cover the batch
(`onSchedule_paged`), however its tables differ from the scheduler's.
-/

namespace VAttention.Worker

open VAttention.Core VAttention.Lib VAttention.Manager VAttention.Executor
open PagedBlockManager (Partitions Covers Backs SetsTable)

/-! ## Logical blocks along a step -/

section Blocks

variable {μ : Type} {hooks : ManagerHooks μ} {t : TokenId} {chunkLen : Int} {s s' : Sequence}
  {table : List Nat}

/-- One more token opens at most one block. -/
theorem length_appendTokensToBlocks_le (blockSize : Nat) (blocks : List (List TokenId))
    (t : TokenId) : (appendTokensToBlocks blockSize blocks [t]).length ≤ blocks.length + 1 := by
  have hunfold : appendTokensToBlocks blockSize blocks [t] =
      let opened := openLastBlock blockSize blocks
      let numEmptySlots := blockSize - (opened.getLastD []).length
      opened.dropLast ++ [opened.getLastD [] ++ [t].take numEmptySlots] := rfl
  have hopened := length_openLastBlock_le blockSize blocks
  have hpos := length_openLastBlock_pos blockSize blocks
  rw [hunfold]
  simp only [List.length_append, List.length_dropLast, List.length_singleton]
  omega

/-- A reset moves tokens from the output to the prompt and leaves the blocks alone. -/
theorem covers_entering {out : SchedulerOutputs} {id : SeqId} (h : Covers table s) :
    Covers table (entering out id s) := by
  unfold entering
  split_ifs <;> exact h

/-- A chunk of the prompt leaves the blocks alone, an output token goes to the last one. -/
theorem advance_blocks (htext : TextOnly hooks) (h : advance hooks t chunkLen s = .ok s') :
    s'.blockSize = s.blockSize ∧
      (s'.getLen = s.getLen ∧ s'.logicalTokenBlocks = s.logicalTokenBlocks ∨
        s'.promptProcessingFinished = true ∧ s'.getLen = s.getLen + 1 ∧
          s'.logicalTokenBlocks = appendTokensToBlocks s.blockSize s.logicalTokenBlocks [t]) := by
  rcases advance_eq_ok h with ⟨-, -, -, rfl⟩ | ⟨hprompt, hstop⟩
  · exact ⟨rfl, .inl ⟨rfl, rfl⟩⟩
  · obtain ⟨-, -, text, status, rfl⟩ := checkStop_spec (decoded_isFinished htext) hstop
    have hcore := core_decoded htext (s := s) (t := t)
    have hsize := congrArg Sequence.blockSize hcore
    have hfinished := congrArg Sequence.promptProcessingFinished hcore
    have hlen := congrArg Sequence.getLen hcore
    have hblocks := congrArg Sequence.logicalTokenBlocks hcore
    refine ⟨hsize, .inr ⟨hfinished.trans hprompt, hlen.trans ?_, hblocks⟩⟩
    simp only [core, appended, Sequence.getLen, List.length_append, List.length_singleton]
    omega

/-- A covered sequence that advances is backed. -/
theorem advance_backs (htext : TextOnly hooks) (hcovers : Covers table s)
    (h : advance hooks t chunkLen s = .ok s') : Backs table s' := by
  rcases (advance_blocks htext h).2 with ⟨-, hblocks⟩ | ⟨hfinished, -, hblocks⟩
  · apply PagedBlockManager.Covers.backs
    rw [Covers, hblocks]
    exact hcovers
  · have hlength := length_appendTokensToBlocks_le s.blockSize s.logicalTokenBlocks t
    simp only [Backs, hblocks, hfinished, if_true]
    exact hlength.trans (Nat.add_le_add_right hcovers 1)

/-- The blocks hold the tokens, and have the size of the cache's blocks. -/
structure InBlocks (blockSize : Nat) (s : Sequence) : Prop where
  packed : s.BlocksPacked
  blockSize : s.blockSize = blockSize

variable {blockSize : Nat}

theorem InBlocks.congr (h : InBlocks blockSize s) (hblock : s'.blockSize = s.blockSize)
    (hlen : s'.getLen = s.getLen) (hblocks : s'.logicalTokenBlocks = s.logicalTokenBlocks) :
    InBlocks blockSize s' := by
  refine ⟨?_, hblock.trans h.blockSize⟩
  rw [Sequence.BlocksPacked, hblock, hlen, hblocks]
  exact h.packed

theorem InBlocks.recomputed (h : InBlocks blockSize s) : InBlocks blockSize (recomputed s) := by
  refine h.congr rfl ?_ rfl
  simp [Manager.recomputed, Sequence.getLen, Nat.add_comm]

theorem InBlocks.entering (h : InBlocks blockSize s) (out : SchedulerOutputs) (id : SeqId) :
    InBlocks blockSize (entering out id s) := by
  unfold Manager.entering
  split_ifs
  · exact h.recomputed.congr rfl rfl rfl
  · exact h.congr rfl rfl rfl

theorem InBlocks.advance (htext : TextOnly hooks) (hblock : 0 < blockSize)
    (h : InBlocks blockSize s) (hadvance : advance hooks t chunkLen s = .ok s') :
    InBlocks blockSize s' := by
  obtain ⟨hsize, ⟨hlen, hblocks⟩ | ⟨-, hlen, hblocks⟩⟩ := advance_blocks htext hadvance
  · exact h.congr hsize hlen hblocks
  · refine ⟨?_, hsize.trans h.blockSize⟩
    rw [Sequence.BlocksPacked, hsize, hlen, hblocks]
    exact h.packed.append (h.blockSize ▸ hblock) [t]

/-- The context of an entry that is covered fits into its table. -/
theorem InBlocks.contextLen_le (h : InBlocks blockSize s) (hblock : 0 < blockSize)
    (hregular : Regular s) (hcovers : Covers table s) (chunkLen : Int) :
    VAttnCacheEngine.contextLen ⟨s, chunkLen⟩ ≤ table.length * blockSize := by
  have hlen := PagedBlockManager.Covers.getLen_le hcovers (h.blockSize ▸ hblock) h.packed
  rw [h.blockSize] at hlen
  exact (VAttnCacheEngine.contextLen_le_getLen hregular chunkLen).trans hlen

end Blocks

/-! ## The replica's tables -/

/-- Invariant of a worker's replica between two steps. -/
structure ReplicaPaged (numBlocks : Nat) (r : Replica PagedBlockManager) : Prop where
  partition : Partitions numBlocks r.ext
  perPrompt : r.ext.requestNumBlocks = none
  known : ∀ id ∈ r.ext.blockTables, id ∈ r.seqMap
  backed : ∀ id table, r.ext.blockTables.lookup id = some table → Backs table (r.objs id)

/-- The sequence has a table, and the table covers it. -/
def HasTable (r : Replica PagedBlockManager) (id : SeqId) : Prop :=
  ∃ table, r.ext.blockTables.lookup id = some table ∧ Covers table (r.objs id)

variable {numBlocks : Nat} {r r' : Replica PagedBlockManager} {id : SeqId}

theorem HasTable.congr {a : SeqId} (h : HasTable r a)
    (hlookup : r'.ext.blockTables.lookup a = r.ext.blockTables.lookup a)
    (hobjs : r'.objs a = r.objs a) : HasTable r' a := by
  obtain ⟨table, htable, hcovers⟩ := h
  exact ⟨table, hlookup.trans htable, hobjs ▸ hcovers⟩

/-- A sequence loses its table; its object and its entry may change. -/
theorem ReplicaPaged.dropTable (h : ReplicaPaged numBlocks r) (hext : r'.ext = r.ext.free id)
    (hview : ∀ a, a ≠ id → r'.view a = r.view a) : ReplicaPaged numBlocks r' := by
  have hobjs : ∀ a, a ≠ id → r'.objs a = r.objs a := fun a ha => congrArg Prod.fst (hview a ha)
  constructor
  case partition => rw [hext]; exact h.partition.free id
  case perPrompt =>
    rw [hext, PagedBlockManager.requestNumBlocks_free]
    exact h.perPrompt
  case known =>
    intro a ha
    rw [hext, PagedBlockManager.mem_free] at ha
    have hmap : (a ∈ r'.seqMap) = (a ∈ r.seqMap) := congrArg Prod.snd (hview a ha.1)
    rw [hmap]
    exact h.known a ha.2
  case backed =>
    intro a table hlookup
    -- a sequence that still has a table is another one
    have hmem : a ∈ (r.ext.free id).blockTables := by
      rw [← hext, ← AList.lookup_isSome, hlookup, Option.isSome_some]
    have hne := (PagedBlockManager.mem_free.mp hmem).1
    rw [hext, PagedBlockManager.lookup_free_of_ne hne] at hlookup
    rw [hobjs a hne]
    exact h.backed a table hlookup

theorem onFree_eq (m : PagedBlockManager) (id : SeqId) (s : Sequence) :
    (workerHooks PagedBlockManager).onFree id s m = m.free id := by
  show (if (m.blockTables.lookup id).isSome then m.free id else m) = m.free id
  split_ifs with h
  · rfl
  · rw [AList.lookup_isSome] at h
    exact (PagedBlockManager.free_of_notMem h).symm

theorem freeSeq_paged (h : ReplicaPaged numBlocks r)
    (hfree : Replica.freeSeq (workerHooks PagedBlockManager) r id = .ok r') :
    ReplicaPaged numBlocks r' := by
  have hframe := (Replica.freeSeq_view hfree).2
  obtain ⟨-, rfl⟩ := Replica.freeSeq_eq_ok hfree
  exact h.dropTable (onFree_eq _ _ _) hframe

theorem preemptSeq_paged (h : ReplicaPaged numBlocks r)
    (hpreempt : Replica.preemptSeq (workerHooks PagedBlockManager) r id = .ok r') :
    ReplicaPaged numBlocks r' := by
  have hframe := (Replica.preemptSeq_view hpreempt).2
  obtain ⟨⟨⟩, -, hpreempt⟩ := seq_eq_ok.mp hpreempt
  obtain ⟨⟨⟩, -, hpreempt⟩ := seq_eq_ok.mp hpreempt
  obtain ⟨s, -, hpreempt⟩ := seq_eq_ok.mp hpreempt
  cases hpreempt
  exact h.dropTable rfl hframe

/-- A scheduled sequence gets the blocks it misses, or its first table. -/
theorem onScheduled_setsTable {m m' : PagedBlockManager} {s : Sequence}
    (hprompt : m.requestNumBlocks = none) (hpartition : Partitions numBlocks m)
    (hbacked : ∀ table, m.blockTables.lookup id = some table → Backs table s)
    (h : (workerHooks PagedBlockManager).onScheduled id s m = .ok m') :
    ∃ table, SetsTable id table m m' ∧ Covers table s ∧ Partitions numBlocks m' := by
  have hunfold : (workerHooks PagedBlockManager).onScheduled id s m =
      if (m.blockTables.lookup id).isSome then m.appendSlot id s else m.allocate id s := rfl
  rw [hunfold] at h
  split_ifs at h with hmem
  · obtain ⟨table, hlookup⟩ := Option.isSome_iff_exists.mp hmem
    obtain ⟨table', hsets, hcovers⟩ :=
      PagedBlockManager.appendSlot_setsTable hlookup (hbacked table hlookup) h
    exact ⟨table', hsets, hcovers, hpartition.appendSlot h⟩
  · rw [AList.lookup_isSome] at hmem
    obtain ⟨table, hsets, hcovers⟩ := PagedBlockManager.allocate_setsTable hprompt h
    exact ⟨table, hsets, hcovers, hpartition.allocate hmem h⟩

theorem onSeqScheduled_ext {m : SequenceScheduleMetadata}
    (h : Replica.onSeqScheduled (workerHooks PagedBlockManager) r m = .ok r') :
    (workerHooks PagedBlockManager).onScheduled m.seqId
        { r.objs m.seqId with status := .running } r.ext = .ok r'.ext ∧
      r'.seqMap = r.seqMap := by
  obtain ⟨⟨⟩, -, h⟩ := seq_eq_ok.mp h
  obtain ⟨r₁, hresume, h⟩ := seq_eq_ok.mp h
  obtain ⟨ext, hhook, h⟩ := seq_eq_ok.mp h
  obtain ⟨-, -, rfl⟩ := Replica.resumeSeq_eq_ok hresume
  cases h
  refine ⟨?_, rfl⟩
  simpa [Replica.setSeq] using hhook

theorem onSeqScheduled_paged {m : SequenceScheduleMetadata} (h : ReplicaPaged numBlocks r)
    (hscheduled : Replica.onSeqScheduled (workerHooks PagedBlockManager) r m = .ok r') :
    ReplicaPaged numBlocks r' ∧ HasTable r' m.seqId ∧
      ∀ a, a ≠ m.seqId → HasTable r a → HasTable r' a := by
  obtain ⟨⟨hknown, -, hview⟩, hframe⟩ := Replica.onSeqScheduled_view hscheduled
  have hself : r'.objs m.seqId = { r.objs m.seqId with status := .running } :=
    congrArg Prod.fst hview
  have hother : ∀ a, a ≠ m.seqId → r'.objs a = r.objs a := fun a ha =>
    congrArg Prod.fst (hframe a ha)
  obtain ⟨hhook, hmap⟩ := onSeqScheduled_ext hscheduled
  obtain ⟨table, hsets, hcovers, hpartition⟩ :=
    onScheduled_setsTable h.perPrompt h.partition (fun table => h.backed m.seqId table) hhook
  replace hcovers : Covers table (r'.objs m.seqId) := by
    rw [hself]
    exact hcovers
  refine ⟨⟨hpartition, hsets.requestNumBlocks.trans h.perPrompt, ?_, ?_⟩,
    ⟨table, hsets.self, hcovers⟩, fun a ha hold => hold.congr (hsets.other a ha) (hother a ha)⟩
  · intro a ha
    rw [hmap]
    rcases hsets.mem_iff.mp ha with rfl | hold
    · exact hknown
    · exact h.known a hold
  · intro a table' hlookup
    -- the table of the entry is the new one, the others are as before
    by_cases ha : a = m.seqId
    · subst ha
      obtain rfl : table' = table := Option.some.inj (hlookup.symm.trans hsets.self)
      exact PagedBlockManager.Covers.backs hcovers
    · rw [hsets.other a ha] at hlookup
      rw [hother a ha]
      exact h.backed a table' hlookup

/-- **A worker that has applied the scheduler's decisions has a table for every entry of the
    batch**, and the table covers it. -/
theorem onSchedule_paged {out : SchedulerOutputs} (h : ReplicaPaged numBlocks r)
    (hround : Replica.onSchedule (workerHooks PagedBlockManager) out r = .ok r') :
    ReplicaPaged numBlocks r' ∧ ∀ id ∈ out.batchIds, HasTable r' id := by
  obtain ⟨r₁, hfree, hround⟩ := seq_eq_ok.mp hround
  obtain ⟨r₂, hpreempt, hround⟩ := seq_eq_ok.mp hround
  have h₁ : ReplicaPaged numBlocks r₁ := foldlM_ok_induction (I := fun _ => ReplicaPaged numBlocks)
    (fun _ _ _ _ hstep hr => freeSeq_paged hr hstep) _ _ _ hfree h
  have h₂ : ReplicaPaged numBlocks r₂ := foldlM_ok_induction (I := fun _ => ReplicaPaged numBlocks)
    (fun _ _ _ _ hstep hr => preemptSeq_paged hr hstep) _ _ _ hpreempt h₁
  -- in the last loop, what is not to come has a table
  have hloop := foldlM_ok_induction
    (I := fun rest r => ReplicaPaged numBlocks r ∧
      ∀ id ∈ out.batchIds, id ∉ scheduledIds rest → HasTable r id)
    (fun m rest r r' hstep hr => ?_) _ _ _ hround ⟨h₂, fun id hid hnot => absurd hid hnot⟩
  · exact ⟨hloop.1, fun id hid => hloop.2 id hid (by simp [scheduledIds])⟩
  · obtain ⟨hpaged, hself, hother⟩ := onSeqScheduled_paged hr.1 hstep
    refine ⟨hpaged, fun id hid hnot => ?_⟩
    by_cases heq : id = m.seqId
    · exact heq ▸ hself
    · refine hother id heq (hr.2 id hid ?_)
      simpa [scheduledIds, heq] using hnot

/-! ## The end of a step -/

/-- `on_step_completed` frees the table of a sequence that finishes, and touches no other. -/
theorem completeSeq_ext {sampled : SeqId → TokenId} {m : SequenceScheduleMetadata}
    (h : Replica.completeSeq (workerHooks PagedBlockManager) sampled r m = .ok r') :
    (r'.objs m.seqId).isFinished = false ∧ r'.ext = r.ext ∧ r'.seqMap = r.seqMap ∨
      (r'.objs m.seqId).isFinished = true ∧ r'.ext = r.ext.free m.seqId := by
  unfold Replica.completeSeq at h
  split_ifs at h with hknown hwaiting
  · cases h
    refine .inl ⟨?_, rfl, rfl⟩
    have hstatus : (r.objs m.seqId).status = .waiting := by
      simpa [Sequence.isWaiting] using hwaiting
    simp [Sequence.isFinished, hstatus, SequenceStatus.isFinished]
  · obtain ⟨r₁, hpause, h⟩ := seq_eq_ok.mp h
    obtain ⟨-, rfl⟩ := Replica.pauseSeq_eq_ok hpause
    obtain ⟨⟨⟩, -, h⟩ := seq_eq_ok.mp h
    obtain ⟨⟨⟩, hrunning, h⟩ := seq_eq_ok.mp h
    split_ifs at h with hprompt
    · obtain ⟨s', hupdate, h⟩ := seq_eq_ok.mp h
      cases h
      -- a chunk of the prompt does not change the status
      obtain ⟨-, -, -, rfl⟩ := updatePromptTokensProcessed_eq_ok hupdate
      refine .inl ⟨?_, rfl, rfl⟩
      simpa [Replica.setSeq, Sequence.isFinished] using hrunning
    · obtain ⟨s₁, -, h⟩ := seq_eq_ok.mp h
      obtain ⟨s', -, h⟩ := seq_eq_ok.mp h
      split_ifs at h with hfinished
      · obtain ⟨-, rfl⟩ := Replica.freeSeq_eq_ok h
        refine .inr ⟨?_, onFree_eq _ _ _⟩
        simpa [Replica.setSeq] using hfinished
      · cases h
        refine .inl ⟨?_, rfl, rfl⟩
        simpa [Replica.setSeq] using hfinished

/-- A covered sequence is backed after its step. -/
theorem completeSeq_backs {sampled : SeqId → TokenId} {m : SequenceScheduleMetadata}
    {table : List Nat} (hcovers : Covers table (r.objs m.seqId))
    (h : Replica.completeSeq (workerHooks PagedBlockManager) sampled r m = .ok r') :
    Backs table (r'.objs m.seqId) := by
  unfold Replica.completeSeq at h
  split_ifs at h with hknown hwaiting
  · cases h
    exact PagedBlockManager.Covers.backs hcovers
  · obtain ⟨r₁, hpause, h⟩ := seq_eq_ok.mp h
    obtain ⟨-, rfl⟩ := Replica.pauseSeq_eq_ok hpause
    obtain ⟨⟨s', hadvance, hview⟩, -⟩ :=
      Replica.processSeqOutput_view (s := r.objs m.seqId) (by simp [Replica.setSeq]) h
    have hself : r'.objs m.seqId = s' := congrArg Prod.fst hview
    rw [hself]
    exact advance_backs (workerHooks_textOnly _) hcovers hadvance

theorem completeSeq_paged {sampled : SeqId → TokenId} {m : SequenceScheduleMetadata}
    (h : ReplicaPaged numBlocks r) (htable : HasTable r m.seqId)
    (hcomplete : Replica.completeSeq (workerHooks PagedBlockManager) sampled r m = .ok r') :
    ReplicaPaged numBlocks r' ∧ ∀ a, a ≠ m.seqId → HasTable r a → HasTable r' a := by
  have hframe := (Replica.completeSeq_view hcomplete).2
  have hother : ∀ a, a ≠ m.seqId → r'.objs a = r.objs a := fun a ha =>
    congrArg Prod.fst (hframe a ha)
  -- the entry goes on with its table, or finishes and loses it
  rcases completeSeq_ext hcomplete with ⟨-, hext, hmap⟩ | ⟨-, hext⟩
  · refine ⟨⟨?_, ?_, ?_, ?_⟩, fun a ha hold => hold.congr (by rw [hext]) (hother a ha)⟩
    · rw [hext]; exact h.partition
    · rw [hext]; exact h.perPrompt
    · rw [hext, hmap]; exact h.known
    · rw [hext]
      intro a table hlookup
      by_cases ha : a = m.seqId
      · subst ha
        obtain ⟨table', hlookup', hcovers⟩ := htable
        obtain rfl : table' = table := Option.some.inj (hlookup'.symm.trans hlookup)
        exact completeSeq_backs hcovers hcomplete
      · rw [hother a ha]
        exact h.backed a table hlookup
  · refine ⟨h.dropTable hext hframe, fun a ha hold => hold.congr ?_ (hother a ha)⟩
    rw [hext]
    exact PagedBlockManager.lookup_free_of_ne ha

/-- The end of a step keeps the invariant: each entry of the batch advances once. -/
theorem onStepCompleted_paged {out : SchedulerOutputs} {sampled : SeqId → TokenId}
    (h : ReplicaPaged numBlocks r) (hbatch : out.batchIds.Nodup)
    (htables : ∀ id ∈ out.batchIds, HasTable r id)
    (hrun : r.onStepCompleted (workerHooks PagedBlockManager) out sampled = .ok r') :
    ReplicaPaged numBlocks r' := by
  -- each entry still to come has its table, as no entry is twice in the batch
  have hloop := foldlM_ok_induction
    (I := fun rest r => ReplicaPaged numBlocks r ∧ (scheduledIds rest).Nodup ∧
      ∀ id ∈ scheduledIds rest, HasTable r id)
    (fun m rest r r' hstep ⟨hr, hnodup, hrest⟩ => ?_) _ _ _ hrun ⟨h, hbatch, htables⟩
  · exact hloop.1
  · obtain ⟨hnew, hnodup'⟩ := List.nodup_cons.mp hnodup
    obtain ⟨hpaged, hother⟩ := completeSeq_paged hr (hrest _ List.mem_cons_self) hstep
    refine ⟨hpaged, hnodup', fun id hid => ?_⟩
    exact hother id (ne_of_mem_of_not_mem hid hnew) (hrest id (List.mem_cons_of_mem _ hid))

/-- A new sequence has no table. -/
theorem addSeq_paged {seq : Sequence} (h : ReplicaPaged numBlocks r)
    (hadd : r.addSeq seq = .ok r') : ReplicaPaged numBlocks r' := by
  obtain ⟨⟨⟩, hnew, hadd⟩ := seq_eq_ok.mp hadd
  rw [assertThat_eq_ok, decide_eq_true_eq] at hnew
  cases hadd
  refine ⟨h.partition, h.perPrompt, fun a ha => Finset.mem_insert_of_mem (h.known a ha), ?_⟩
  intro a table hlookup
  -- a table belongs to a known sequence, so not to the new one
  have hknown : a ∈ r.seqMap := by
    apply h.known
    rw [← AList.lookup_isSome]
    exact Option.isSome_of_mem hlookup
  have hobjs : (r.setSeq seq.seqId seq).objs a = r.objs a :=
    Function.update_of_ne (ne_of_mem_of_not_mem hknown hnew) _ _
  dsimp only
  rw [hobjs]
  exact h.backed a table hlookup

/-! ## The slots of the batch -/

/-- The list that `on_schedule` returns, with the block tables.  The source reads a table right
    after it has scheduled the sequence; scheduling the others does not touch it. -/
def pagedMetadataList (out : SchedulerOutputs) (r : Replica PagedBlockManager) :
    Except PyError (List PagedMetadata) :=
  out.scheduledSeqMetadataList.mapM fun m => do
    let blockTable ← r.ext.getBlockTable m.seqId
    pure ⟨⟨r.objs m.seqId, m.promptChunkLen⟩, some blockTable⟩

/-- An entry of the batch with its table. -/
def pagedEntry (r : Replica PagedBlockManager) (m : SequenceScheduleMetadata) : PagedMetadata :=
  ⟨⟨r.objs m.seqId, m.promptChunkLen⟩, r.ext.blockTables.lookup m.seqId⟩

section Slots

variable {out : SchedulerOutputs} {blockSize : Nat}

theorem pagedMetadataList_ok (htables : ∀ id ∈ out.batchIds, HasTable r id) :
    pagedMetadataList out r = .ok (out.scheduledSeqMetadataList.map (pagedEntry r)) := by
  have hentry : ∀ m ∈ out.scheduledSeqMetadataList, ∃ entry,
      (do
        let blockTable ← r.ext.getBlockTable m.seqId
        pure ⟨⟨r.objs m.seqId, m.promptChunkLen⟩, some blockTable⟩ :
          Except PyError PagedMetadata) = .ok entry ∧ entry = pagedEntry r m := by
    intro m hm
    obtain ⟨table, hlookup, -⟩ := htables m.seqId (List.mem_map_of_mem hm)
    refine ⟨pagedEntry r m, ?_, rfl⟩
    rw [PagedBlockManager.getBlockTable, pagedEntry, hlookup]
    rfl
  obtain ⟨l, hok, hl⟩ := exists_mapM_ok hentry
  rw [pagedMetadataList, hok, ← hl, List.map_id']

/-- A table that covers an entry reaches its context. -/
theorem tableFits_of_covers {m : SequenceScheduleMetadata} {table : List Nat}
    {rows : List InputRow} (hblock : 0 < blockSize)
    (hlookup : r.ext.blockTables.lookup m.seqId = some table)
    (hcovers : Covers table (r.objs m.seqId)) (hblocks : InBlocks blockSize (r.objs m.seqId))
    (hregular : Regular (r.objs m.seqId))
    (hrows : inputRows ⟨r.objs m.seqId, m.promptChunkLen⟩ = .ok rows) :
    TableFits blockSize (pagedEntry r m) table := by
  have hcontext := hblocks.contextLen_le hblock hregular hcovers m.promptChunkLen
  refine ⟨hlookup, fun hprompt => ?_, fun hprompt => ?_⟩
  · rw [VAttnCacheEngine.contextLen, if_pos (by exact hprompt)] at hcontext
    dsimp only [pagedEntry] at hcontext ⊢
    omega
  · have hdecode : ¬ (⟨r.objs m.seqId, m.promptChunkLen⟩ : SequenceMetadata).isPrompt = true := by
      rw [Bool.not_eq_true]
      exact hprompt
    rw [VAttnCacheEngine.contextLen, if_neg hdecode] at hcontext
    rw [inputRows, if_neg hdecode] at hrows
    obtain ⟨token, htoken, -⟩ := seq_eq_ok.mp hrows
    exact ⟨VAttnCacheEngine.getLen_pos_of_lastToken htoken, hcontext⟩

/-- **The slots of a worker's batch**: once `_prepare_inputs` has returned, `begin_forward` returns
    and gives out no slot twice. -/
theorem beginForward_paged {padded : Bool} {rows : List InputRow} (hblock : 0 < blockSize)
    (h : ReplicaPaged numBlocks r) (hbatch : out.batchIds.Nodup)
    (htables : ∀ id ∈ out.batchIds, HasTable r id)
    (hobjs : ∀ id ∈ out.batchIds, InBlocks blockSize (r.objs id) ∧ Regular (r.objs id))
    (hrows : prepareInputs padded (r.metadataList out) = .ok rows) :
    ∃ f, beginForward blockSize (out.scheduledSeqMetadataList.map (pagedEntry r)) = .ok f ∧
      f.slots.Nodup := by
  have hfits : ∀ entry ∈ out.scheduledSeqMetadataList.map (pagedEntry r), ∃ table,
      TableFits blockSize entry table ∧ table.Nodup := by
    intro entry hentry
    obtain ⟨m, hm, rfl⟩ := List.mem_map.mp hentry
    have hid : m.seqId ∈ out.batchIds := List.mem_map_of_mem hm
    obtain ⟨table, hlookup, hcovers⟩ := htables m.seqId hid
    obtain ⟨hblocks, hregular⟩ := hobjs m.seqId hid
    obtain ⟨new, hnew⟩ := inputRows_ok_of_prepareInputs hrows _ (List.mem_map_of_mem hm)
    exact ⟨table, tableFits_of_covers hblock hlookup hcovers hblocks hregular hnew,
      nodup_of_lookup h.partition.nodup hlookup⟩
  obtain ⟨f, hok, hperm⟩ := beginForward_ok hblock fun entry hentry =>
    (hfits entry hentry).imp fun _ => And.left
  refine ⟨f, hok, hperm.nodup_iff.mpr (writtenSlots_nodup hblock hfits ?_)⟩
  -- different entries are different sequences
  rw [List.pairwise_map]
  exact (List.pairwise_map.mp hbatch).imp fun hne table table' htable htable' =>
    disjoint_of_lookup h.partition.nodup hne htable htable'

end Slots

end VAttention.Worker
