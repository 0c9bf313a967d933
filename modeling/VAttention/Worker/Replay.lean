import VAttention.Core.TableLengths
import VAttention.Manager.Rounds
import VAttention.Worker.Paging

/-!
# The worker repeats a round

A worker frees the tables of all evicted sequences first and then goes through the batch, without
asking whether there are free blocks.  The lengths of its tables end up as those of `replayed`
(`onSchedule_tableLength`).  If some manager with as many blocks can have tables of these lengths,
then the worker does not run out of blocks on the way (`onSchedule_ok`).
-/

namespace VAttention.Worker

open VAttention.Core VAttention.Lib VAttention.Manager
open PagedBlockManager (Partitions)

variable {numBlocks : Nat} {r r' : Replica PagedBlockManager} {out : SchedulerOutputs}

/-! ## Sequences that lose their tables -/

/-- A loop that drops tables and leaves the logical blocks alone. -/
theorem foldlM_drops {f : Replica PagedBlockManager → SeqId →
      Except PyError (Replica PagedBlockManager)}
    (hstep : ∀ r id r', f r id = .ok r' → r'.ext = r.ext.free id ∧
      ∀ a, (r'.objs a).logicalTokenBlocks = (r.objs a).logicalTokenBlocks)
    {l : List SeqId} (h : l.foldlM f r = .ok r') :
    r'.ext = l.foldl PagedBlockManager.free r.ext ∧
      ∀ a, (r'.objs a).logicalTokenBlocks = (r.objs a).logicalTokenBlocks := by
  induction l generalizing r with
  | nil =>
    cases h
    exact ⟨rfl, fun _ => rfl⟩
  | cons id l ih =>
    obtain ⟨r₁, hfst, h⟩ := seq_eq_ok.mp h
    obtain ⟨hext₁, hblocks₁⟩ := hstep r id r₁ hfst
    obtain ⟨hext, hblocks⟩ := ih h
    exact ⟨hext.trans (by rw [hext₁, List.foldl_cons]), fun a => (hblocks a).trans (hblocks₁ a)⟩

theorem freeSeq_drops {id : SeqId}
    (h : Replica.freeSeq (workerHooks PagedBlockManager) r id = .ok r') :
    r'.ext = r.ext.free id ∧
      ∀ a, (r'.objs a).logicalTokenBlocks = (r.objs a).logicalTokenBlocks := by
  obtain ⟨-, rfl⟩ := Replica.freeSeq_eq_ok h
  exact ⟨onFree_eq _ _ _, fun _ => rfl⟩

theorem preemptSeq_drops {id : SeqId}
    (h : Replica.preemptSeq (workerHooks PagedBlockManager) r id = .ok r') :
    r'.ext = r.ext.free id ∧
      ∀ a, (r'.objs a).logicalTokenBlocks = (r.objs a).logicalTokenBlocks := by
  obtain ⟨⟨-, hself⟩, hframe⟩ := Replica.preemptSeq_view h
  obtain ⟨⟨⟩, -, h⟩ := seq_eq_ok.mp h
  obtain ⟨⟨⟩, -, h⟩ := seq_eq_ok.mp h
  obtain ⟨s, -, h⟩ := seq_eq_ok.mp h
  cases h
  refine ⟨rfl, fun a => ?_⟩
  by_cases ha : a = id
  · subst ha
    exact congrArg (fun v : Sequence × Prop => v.1.logicalTokenBlocks) hself
  · exact congrArg (fun v : Sequence × Prop => v.1.logicalTokenBlocks) (hframe a ha)

/-! ## Sequences that enter the batch -/

/-- A scheduled sequence has a table that reaches its logical blocks. -/
theorem onSeqScheduled_tableLength {m : SequenceScheduleMetadata} (h : ReplicaPaged numBlocks r)
    (hscheduled : Replica.onSeqScheduled (workerHooks PagedBlockManager) r m = .ok r') :
    r'.ext.tableLength = Function.update r.ext.tableLength m.seqId
      (some (max ((r.ext.tableLength m.seqId).getD 0)
        (r.objs m.seqId).logicalTokenBlocks.length)) := by
  obtain ⟨hhook, -⟩ := onSeqScheduled_ext hscheduled
  have hunfold (s : Sequence) : (workerHooks PagedBlockManager).onScheduled m.seqId s r.ext =
      if (r.ext.blockTables.lookup m.seqId).isSome then r.ext.appendSlot m.seqId s
      else r.ext.allocate m.seqId s := rfl
  rw [hunfold] at hhook
  split_ifs at hhook with hmem
  · obtain ⟨n, hn, hlengths⟩ := PagedBlockManager.tableLength_appendSlot hhook
    obtain ⟨table, hlookup, hlen⟩ := PagedBlockManager.tableLength_eq_some.mp hn
    -- at most one block is missing
    have hbacks : (r.objs m.seqId).logicalTokenBlocks.length ≤ n + 1 := by
      have hbacked := h.backed m.seqId table hlookup
      unfold PagedBlockManager.Backs at hbacked
      split_ifs at hbacked <;> omega
    have hgrown : (if (r.objs m.seqId).logicalTokenBlocks.length ≤ n then n else n + 1) =
        max n (r.objs m.seqId).logicalTokenBlocks.length := by
      split_ifs <;> omega
    rw [hn, Option.getD_some, ← hgrown]
    exact hlengths
  · rw [AList.lookup_isSome] at hmem
    rw [PagedBlockManager.tableLength_eq_none.mpr hmem, Option.getD_none, Nat.zero_max]
    exact PagedBlockManager.tableLength_allocate h.perPrompt hhook

theorem scheduleLoop_tableLength {l : List SequenceScheduleMetadata} (h : ReplicaPaged numBlocks r)
    (hnodup : (scheduledIds l).Nodup)
    (hrun : l.foldlM (Replica.onSeqScheduled (workerHooks PagedBlockManager)) r = .ok r')
    (id : SeqId) :
    r'.ext.tableLength id = if id ∈ scheduledIds l then
      some (max ((r.ext.tableLength id).getD 0) (r.objs id).logicalTokenBlocks.length)
      else r.ext.tableLength id := by
  induction l generalizing r with
  | nil =>
    cases hrun
    rfl
  | cons m l ih =>
    obtain ⟨r₁, hfst, hrun⟩ := seq_eq_ok.mp hrun
    obtain ⟨hnew, hnodup⟩ := List.nodup_cons.mp hnodup
    have hlengths := onSeqScheduled_tableLength h hfst
    rw [ih (onSeqScheduled_paged h hfst).1 hnodup hrun, hlengths]
    by_cases hid : id = m.seqId
    · -- its own turn, and no later one
      subst hid
      have hlater : m.seqId ∉ scheduledIds l := hnew
      rw [if_neg hlater, Function.update_self, if_pos (by simp [scheduledIds])]
    · have hobjs : r₁.objs id = r.objs id :=
        congrArg Prod.fst ((Replica.onSeqScheduled_view hfst).2 id hid)
      have hiff : id ∈ scheduledIds (m :: l) ↔ id ∈ scheduledIds l := by
        simp [scheduledIds, hid]
      simp only [Function.update_of_ne hid, hobjs, hiff]

/-! ## A whole round -/

/-- Dropping and evicting, and what the last loop then starts from. -/
theorem onSchedule_parts (h : ReplicaPaged numBlocks r)
    (hround : Replica.onSchedule (workerHooks PagedBlockManager) out r = .ok r') :
    ∃ r₂, ReplicaPaged numBlocks r₂ ∧
      (∀ id, r₂.ext.tableLength id =
        if id ∈ out.ignoredSeqIds ∨ id ∈ out.preemptedSeqIds then none
        else r.ext.tableLength id) ∧
      (∀ id, (r₂.objs id).logicalTokenBlocks = (r.objs id).logicalTokenBlocks) ∧
      out.scheduledSeqMetadataList.foldlM
        (Replica.onSeqScheduled (workerHooks PagedBlockManager)) r₂ = .ok r' := by
  obtain ⟨r₁, hfree, hround⟩ := seq_eq_ok.mp hround
  obtain ⟨r₂, hpreempt, hround⟩ := seq_eq_ok.mp hround
  have h₁ : ReplicaPaged numBlocks r₁ := foldlM_ok_induction (I := fun _ => ReplicaPaged numBlocks)
    (fun _ _ _ _ hstep hr => freeSeq_paged hr hstep) _ _ _ hfree h
  have h₂ : ReplicaPaged numBlocks r₂ := foldlM_ok_induction (I := fun _ => ReplicaPaged numBlocks)
    (fun _ _ _ _ hstep hr => preemptSeq_paged hr hstep) _ _ _ hpreempt h₁
  obtain ⟨hext₁, hblocks₁⟩ := foldlM_drops (fun _ _ _ => freeSeq_drops) hfree
  obtain ⟨hext₂, hblocks₂⟩ := foldlM_drops (fun _ _ _ => preemptSeq_drops) hpreempt
  refine ⟨r₂, h₂, fun id => ?_, fun id => (hblocks₂ id).trans (hblocks₁ id), hround⟩
  rw [hext₂, hext₁, PagedBlockManager.tableLength_foldl_free,
    PagedBlockManager.tableLength_foldl_free]
  by_cases hpre : id ∈ out.preemptedSeqIds
  · simp [hpre]
  · simp [hpre]

/-- **The net effect on a worker** is the one of scheduling. -/
theorem onSchedule_tableLength (h : ReplicaPaged numBlocks r) (hnodup : out.batchIds.Nodup)
    (hround : Replica.onSchedule (workerHooks PagedBlockManager) out r = .ok r') (id : SeqId) :
    r'.ext.tableLength id = replayed out (fun id => (r.objs id).logicalTokenBlocks.length)
      r.ext.tableLength id := by
  obtain ⟨r₂, h₂, hlengths, hblocks, hloop⟩ := onSchedule_parts h hround
  rw [scheduleLoop_tableLength h₂ hnodup hloop, hlengths, hblocks]
  rfl

theorem onSchedule_blocks (hout : out.WellFormed)
    (hround : Replica.onSchedule (workerHooks PagedBlockManager) out r = .ok r') (id : SeqId) :
    (r'.objs id).logicalTokenBlocks = (r.objs id).logicalTokenBlocks := by
  have hview : r'.objs id = (begun out id (r.view id)).1 :=
    congrArg Prod.fst (Replica.onSchedule_begun hout hround id)
  rw [hview]
  unfold begun entering
  split_ifs <;> rfl

/-! ## Enough blocks -/

/-- A sequence gets its table if there is room for it. -/
theorem exists_onScheduled {m : PagedBlockManager} {id : SeqId} {s : Sequence}
    (hprompt : m.requestNumBlocks = none)
    (hroom : s.logicalTokenBlocks.length ≤ (m.tableLength id).getD 0 + m.freeBlocks.length) :
    ∃ m', (workerHooks PagedBlockManager).onScheduled id s m = .ok m' := by
  have hunfold : (workerHooks PagedBlockManager).onScheduled id s m =
      if (m.blockTables.lookup id).isSome then m.appendSlot id s else m.allocate id s := rfl
  rw [hunfold]
  cases hlookup : m.blockTables.lookup id with
  | none =>
    have hlength : m.tableLength id = none := by rw [PagedBlockManager.tableLength, hlookup]; rfl
    have hnum : m.getNumInitialBlocks s ≤ m.freeBlocks.length := by
      rw [PagedBlockManager.getNumInitialBlocks, hprompt, Option.getD_none]
      rwa [hlength, Option.getD_none, Nat.zero_add] at hroom
    exact ⟨_, (PagedBlockManager.allocate_eq m id s).trans (if_pos hnum)⟩
  | some table =>
    have hlength : m.tableLength id = some table.length := by
      rw [PagedBlockManager.tableLength, hlookup]
      rfl
    rw [hlength, Option.getD_some] at hroom
    rw [Option.isSome_some, if_pos rfl, PagedBlockManager.appendSlot_eq hlookup]
    split_ifs with hcovers
    · exact ⟨m, rfl⟩
    · obtain ⟨block, left, hfree⟩ : ∃ block left, m.freeBlocks = block :: left :=
        List.exists_cons_of_length_pos (by omega)
      rw [hfree]
      exact ⟨_, rfl⟩

theorem wellFormed_of_prefix {done rest : List SequenceScheduleMetadata} (hout : out.WellFormed)
    (hsplit : out.scheduledSeqMetadataList = done ++ rest) :
    SchedulerOutputs.WellFormed { out with scheduledSeqMetadataList := done } := by
  have hids : out.batchIds = scheduledIds done ++ scheduledIds rest := by
    simp [SchedulerOutputs.batchIds, scheduledIds, hsplit]
  have hnodup := hout.batch_nodup
  rw [hids] at hnodup
  refine ⟨hout.ignored_nodup, hout.preempted_nodup, hnodup.of_append_left, hout.ignored_preempted,
    fun id hid hbatch => hout.ignored_batch id hid ?_⟩
  rw [hids]
  exact List.mem_append_left _ hbatch

/-- **The worker does not run out of blocks**: if its assertions hold, and a manager with as many
    blocks has tables of the lengths that the round leads to, then the round succeeds. -/
theorem onSchedule_ok {bound : PagedBlockManager} (h : ReplicaPaged numBlocks r)
    (hout : out.WellFormed) (hbegins : Begins out r.view) (hbound : Partitions numBlocks bound)
    (hlengths : ∀ id, bound.tableLength id =
      replayed out (fun id => (r.objs id).logicalTokenBlocks.length) r.ext.tableLength id) :
    ∃ r', Replica.onSchedule (workerHooks PagedBlockManager) out r = .ok r' := by
  cases hround : Replica.onSchedule (workerHooks PagedBlockManager) out r with
  | ok r' => exact ⟨r', rfl⟩
  | error err =>
    exfalso
    -- the round has been applied up to an entry that finds no block
    obtain ⟨done, m, rest, t, hsplit, hdone, hraise⟩ :=
      Replica.onSchedule_error_at hout hbegins hround
    have hout' := wellFormed_of_prefix hout hsplit
    obtain ⟨ht, -⟩ := onSchedule_paged h hdone
    have htlengths := onSchedule_tableLength h hout'.batch_nodup hdone
    have htblocks := onSchedule_blocks hout' hdone m.seqId
    have hbatch : m.seqId ∈ out.batchIds := by simp [scheduledIds, hsplit]
    obtain ⟨n, hn⟩ : ∃ n, bound.tableLength m.seqId = some n ∧
        (t.objs m.seqId).logicalTokenBlocks.length ≤ n := by
      rw [hlengths, replayed, if_pos hbatch, htblocks]
      exact ⟨_, rfl, le_max_right _ _⟩
    have hsub : ∀ id ∈ scheduledIds done, id ∈ out.batchIds := by
      intro id hid
      rw [SchedulerOutputs.batchIds, hsplit, scheduledIds, List.map_append]
      exact List.mem_append_left _ hid
    have hroom := ht.partition.room hbound (fun a _ k hk => by
      rw [htlengths] at hk
      rw [hlengths]
      exact replayed_le hsub hk) hn.1
    obtain ⟨m', hok⟩ := exists_onScheduled (s := { t.objs m.seqId with status := .running })
      ht.perPrompt (hn.2.trans hroom)
    cases hok.symm.trans hraise

/-! ## The end of a step -/

/-- Exactly the entries that finish lose their tables. -/
theorem completeLoop_tableLength {sampled : SeqId → TokenId} {l : List SequenceScheduleMetadata}
    (hnodup : (scheduledIds l).Nodup)
    (hrun : l.foldlM (Replica.completeSeq (workerHooks PagedBlockManager) sampled) r = .ok r')
    (id : SeqId) :
    r'.ext.tableLength id = if id ∈ scheduledIds l ∧ (r'.objs id).isFinished = true then none
      else r.ext.tableLength id := by
  induction l generalizing r with
  | nil =>
    cases hrun
    simp [scheduledIds]
  | cons m l ih =>
    obtain ⟨r₁, hfst, hrun⟩ := seq_eq_ok.mp hrun
    obtain ⟨hnew, hnodup⟩ := List.nodup_cons.mp hnodup
    rw [ih hnodup hrun]
    by_cases hid : id = m.seqId
    · subst hid
      have hlater : m.seqId ∉ scheduledIds l := hnew
      have hrest : Replica.onStepCompleted (workerHooks PagedBlockManager) ⟨[], [], l⟩ sampled r₁ =
          .ok r' := hrun
      have hframe := (Replica.onStepCompleted_view (by exact hnodup) hrest).frame
      have hobjs : r'.objs m.seqId = r₁.objs m.seqId :=
        congrArg Prod.fst (hframe m.seqId hlater)
      rw [if_neg (fun hand => hlater hand.1), hobjs]
      rcases completeSeq_ext hfst with ⟨hnot, hext, -⟩ | ⟨hfinished, hext⟩
      · simp [hnot, hext]
      · simp [hfinished, hext, scheduledIds, PagedBlockManager.tableLength_free]
    · have hext : r₁.ext.tableLength id = r.ext.tableLength id := by
        rcases completeSeq_ext hfst with ⟨-, hext, -⟩ | ⟨-, hext⟩
        · rw [hext]
        · rw [hext, PagedBlockManager.tableLength_free, Function.update_of_ne hid]
      have hiff : id ∈ scheduledIds (m :: l) ↔ id ∈ scheduledIds l := by
        simp [scheduledIds, hid]
      rw [hext]
      simp only [hiff]

end VAttention.Worker
