import VAttention.Allocator.BestFit
import VAttention.Allocator.Lengths
import VAttention.Worker.Demand

/-!
# The table of request slots

Between two calls the table `seq_to_batch_idx` of the cache engine, its lengths and those of the
allocator describe the same slots: a slot has a length exactly if it has an owner, and only one.
A new slot can be assigned as long as the owners and the sequence that asks for it are no more
than there are slots, and a slot can be released by a sequence that has one.
-/

namespace VAttention.Worker.VAttnCacheEngine

open VAttention.Core VAttention.Lib VAttention.Manager
open VAttention.Allocator hiding State

variable {c c' : VAttnCacheEngine} {id : SeqId} {m : SequenceMetadata}
  {metas : List SequenceMetadata}

/-! ## What the table says -/

/-- The three tables of a worker agree. -/
structure TableSound (c : VAttnCacheEngine) : Prop where
  injective : ∀ id k r, c.seqToBatchIdx id = some r → c.seqToBatchIdx k = some r → id = k
  used : ∀ r, 0 < c.currSeqLens r ↔ ∃ id, c.seqToBatchIdx id = some r
  lens : ∀ r, r < c.config.maxBatchSize → c.allocator.currSeqLengths r = c.currSeqLens r

/-- Every slot in use, by the cache engine's lengths or by the allocator's, has an owner. -/
structure SlotsHeld (c : VAttnCacheEngine) : Prop where
  recorded : ∀ r, c.currSeqLens r ≠ 0 → ∃ id, c.seqToBatchIdx id = some r
  allocated : ∀ r, r < c.config.maxBatchSize → c.allocator.currSeqLengths r ≠ 0 →
    ∃ id, c.seqToBatchIdx id = some r

/-- The cache engine between two calls, in either mode. -/
structure TableInv (c : VAttnCacheEngine) : Prop where
  record : RecordInv c
  held : SlotsHeld c
  lens : ∀ r, r < c.config.maxBatchSize → c.allocator.currSeqLengths r = c.currSeqLens r
  pages : ∃ reserved, PageInv c.config reserved c.allocator

theorem TableInv.sound (h : TableInv c) : TableSound c where
  injective := h.record.injective
  used r := by
    rw [Nat.pos_iff_ne_zero]
    refine ⟨h.held.recorded r, ?_⟩
    rintro ⟨id, hslot⟩
    exact (h.record.active id r hslot).1
  lens := h.lens

theorem TableInv.new (config : Allocator.Config) (vattnAsync : Bool) (newPage : Nat → Page)
    (cacheMemSize : Nat) : TableInv (.new config vattnAsync newPage cacheMemSize) where
  record := ⟨fun _ _ hslot => (nomatch hslot), fun _ _ hslot => (nomatch hslot),
    fun _ _ _ hslot => (nomatch hslot)⟩
  held := ⟨fun _ hused => absurd rfl hused, fun _ _ hused => absurd rfl hused⟩
  lens _ _ := rfl
  pages := ⟨_, reservePhysicalPages_inv newPage cacheMemSize⟩

/-! ## Releasing slots -/

theorem freeRequest_succeeds (h : c.HasSlot id) : ∃ c', c.freeRequest id = .ok c' := by
  obtain ⟨r, hslot⟩ := Option.ne_none_iff_exists'.mp h
  exact ⟨_, by simp only [freeRequest, hslot]; rfl⟩

/-- A queue of different sequences with slots can be released. -/
theorem preemptRequests_succeeds {ids : List SeqId} (hnodup : ids.Nodup)
    (hslots : ∀ id ∈ ids, c.HasSlot id) : ∃ c', c.preemptRequests ids = .ok c' := by
  induction ids generalizing c with
  | nil => exact ⟨c, rfl⟩
  | cons id ids ih =>
    rw [List.nodup_cons] at hnodup
    rw [List.forall_mem_cons] at hslots
    obtain ⟨c₁, hfree⟩ := freeRequest_succeeds hslots.1
    obtain ⟨c', hrest⟩ := ih hnodup.2 fun k hk =>
      (freeRequest_hasSlot hfree).mpr ⟨hslots.2 k hk, ne_of_mem_of_not_mem hk hnodup.1⟩
    exact ⟨c', seq_eq_ok.mpr ⟨c₁, hfree, hrest⟩⟩

/-- So can the finished ones among the entries of a batch. -/
theorem onStepCompletion_succeeds (hnodup : (metas.map fun m => m.seq.seqId).Nodup)
    (hslots : ∀ m ∈ metas, c.HasSlot m.seq.seqId) : ∃ c', c.onStepCompletion metas = .ok c' := by
  induction metas generalizing c with
  | nil => exact ⟨c, rfl⟩
  | cons m metas ih =>
    rw [List.map_cons, List.nodup_cons] at hnodup
    rw [List.forall_mem_cons] at hslots
    by_cases hfinished : m.seq.isFinished = true
    · obtain ⟨c₁, hfree⟩ := freeRequest_succeeds hslots.1
      have hslots₁ : ∀ k ∈ metas, c₁.HasSlot k.seq.seqId := by
        intro k hk
        refine (freeRequest_hasSlot hfree).mpr ⟨hslots.2 k hk, fun heq => hnodup.1 ?_⟩
        exact List.mem_map.mpr ⟨k, hk, heq⟩
      obtain ⟨c', hrest⟩ := ih hnodup.2 hslots₁
      exact ⟨c', seq_eq_ok.mpr ⟨c₁, (if_pos hfinished).trans hfree, hrest⟩⟩
    · obtain ⟨c', hrest⟩ := ih hnodup.2 hslots.2
      exact ⟨c', seq_eq_ok.mpr ⟨c, if_neg hfinished, hrest⟩⟩

theorem SlotsHeld.freeRequest (h : SlotsHeld c) (hfree : c.freeRequest id = .ok c') :
    SlotsHeld c' := by
  obtain ⟨r, hslot, rfl⟩ := freeRequest_eq_ok hfree
  -- the owner of another slot is another sequence
  have hother : ∀ q, q ≠ r → (∃ k, c.seqToBatchIdx k = some q) →
      ∃ k, Function.update c.seqToBatchIdx id none k = some q := by
    rintro q hq ⟨k, hk⟩
    refine ⟨k, ?_⟩
    rw [Function.update_of_ne, hk]
    rintro rfl
    exact hq (Option.some.inj (hk.symm.trans hslot))
  constructor
  case recorded =>
    intro q hused
    by_cases hqr : q = r
    · simp [hqr] at hused
    · simp only [Function.update_of_ne hqr] at hused
      exact hother q hqr (h.recorded q hused)
  case allocated =>
    intro q hq hused
    by_cases hqr : q = r
    · simp [freeBatchIdx, State.setReqSeqLength, hqr] at hused
    · simp only [freeBatchIdx, State.setReqSeqLength, Function.update_of_ne hqr] at hused
      exact hother q hqr (h.allocated q hq hused)

theorem TableInv.freeRequest (h : TableInv c) (hfree : c.freeRequest id = .ok c') :
    TableInv c' ∧ c'.config = c.config := by
  have hrecord := h.record.freeRequest hfree
  have hheld := h.held.freeRequest hfree
  have hlens := freeRequest_lens h.lens hfree
  obtain ⟨reserved, hpages⟩ := h.pages
  obtain ⟨r, -, rfl⟩ := freeRequest_eq_ok hfree
  exact ⟨⟨hrecord, hheld, hlens, reserved, hpages.setReqSeqLength r 0⟩, rfl⟩

theorem TableInv.preemptRequests {ids : List SeqId} (h : TableInv c)
    (hrun : c.preemptRequests ids = .ok c') : TableInv c' ∧ c'.config = c.config := by
  refine foldlM_ok_induction (I := fun _ (c' : VAttnCacheEngine) =>
    TableInv c' ∧ c'.config = c.config) ?_ ids c c' hrun ⟨h, rfl⟩
  rintro id _ c₁ c₂ hfree ⟨hinv, hconfig⟩
  obtain ⟨hinv₂, hconfig₂⟩ := hinv.freeRequest hfree
  exact ⟨hinv₂, hconfig₂.trans hconfig⟩

theorem TableInv.onStepCompletion (h : TableInv c) (hrun : c.onStepCompletion metas = .ok c') :
    TableInv c' ∧ c'.config = c.config := by
  refine foldlM_ok_induction (I := fun _ (c' : VAttnCacheEngine) =>
    TableInv c' ∧ c'.config = c.config) ?_ metas c c' hrun ⟨h, rfl⟩
  rintro m _ c₁ c₂ hstep ⟨hinv, hconfig⟩
  split_ifs at hstep
  · obtain ⟨hinv₂, hconfig₂⟩ := hinv.freeRequest hstep
    exact ⟨hinv₂, hconfig₂.trans hconfig⟩
  · cases hstep
    exact ⟨hinv, hconfig⟩

/-! ## Assigning slots -/

/-- **A free slot**: if the sequences with a slot and one without are among as many as there are
    slots, then one of the slots is inactive. -/
theorem SlotsHeld.exists_inactive {ids : List SeqId} (h : SlotsHeld c)
    (hlen : ids.length ≤ c.config.maxBatchSize) (howners : ∀ k, c.HasSlot k → k ∈ ids)
    (hid : id ∈ ids) (hnone : c.seqToBatchIdx id = none) :
    ∃ r, r < c.config.maxBatchSize ∧ c.allocator.isActiveReq r = false := by
  by_contra hfull
  have howner : ∀ r, r < c.config.maxBatchSize → ∃ k, c.seqToBatchIdx k = some r := by
    intro r hr
    refine h.allocated r hr fun hzero => hfull ⟨r, hr, ?_⟩
    simp [State.isActiveReq, hzero]
  choose! owner howner using howner
  -- the owners of all slots and the sequence without one are different members of the list
  have hnodup : (id :: (List.range c.config.maxBatchSize).map owner).Nodup := by
    rw [List.nodup_cons]
    constructor
    · intro hmem
      obtain ⟨r, hr, rfl⟩ := List.mem_map.mp hmem
      rw [howner r (List.mem_range.mp hr)] at hnone
      cases hnone
    · refine List.nodup_range.map_on fun r hr q hq heq => ?_
      have hr' := howner r (List.mem_range.mp hr)
      rw [heq, howner q (List.mem_range.mp hq)] at hr'
      exact (Option.some.inj hr').symm
  have hsub : id :: (List.range c.config.maxBatchSize).map owner ⊆ ids := by
    refine List.cons_subset.mpr ⟨hid, fun k hk => ?_⟩
    obtain ⟨r, hr, rfl⟩ := List.mem_map.mp hk
    exact howners _ (by simp [HasSlot, howner r (List.mem_range.mp hr)])
  have hle := (List.subperm_of_subset hnodup hsub).length_le
  rw [List.length_cons, List.length_map, List.length_range] at hle
  omega

theorem recordContext_succeeds {ids : List SeqId} (h : SlotsHeld c)
    (hlen : ids.length ≤ c.config.maxBatchSize) (howners : ∀ k, c.HasSlot k → k ∈ ids)
    (hm : m.seq.seqId ∈ ids) : ∃ c', c.recordContext m = .ok c' := by
  suffices hidx : ∃ result, c.getReqBatchIdx m.seq.seqId (contextLen m) = .ok result by
    obtain ⟨result, hidx⟩ := hidx
    exact ⟨_, seq_eq_ok.mpr ⟨result, hidx, rfl⟩⟩
  unfold getReqBatchIdx
  split
  · exact ⟨_, rfl⟩
  · rename_i hnone
    obtain ⟨r, hr, hinactive⟩ := h.exists_inactive hlen howners hm hnone
    split
    · rename_i hfull
      -- the scan does not fail
      have hfind := (allocNewBatchIdx_fst c.config (contextLen m) c.allocator).symm.trans
        (congrArg Prod.fst hfull)
      rw [findBatchIdx_eq_none.mp hfind r hr] at hinactive
      cases hinactive
    · exact ⟨_, rfl⟩

theorem SlotsHeld.recordContext (h : SlotsHeld c) (hrec : c.recordContext m = .ok c') :
    SlotsHeld c' := by
  rcases recordContext_eq_ok hrec with ⟨r, hslot, rfl⟩ | ⟨r, hnone, -, -, rfl⟩
  · refine ⟨fun q hused => ?_, h.allocated⟩
    by_cases hqr : q = r
    · exact ⟨m.seq.seqId, hqr ▸ hslot⟩
    · simp only [Function.update_of_ne hqr] at hused
      exact h.recorded q hused
  · -- the entry owns the new slot; the owner of another slot is another sequence
    have hother : ∀ q, q = r ∨ (∃ k, c.seqToBatchIdx k = some q) →
        ∃ k, Function.update c.seqToBatchIdx m.seq.seqId (some r) k = some q := by
      rintro q (rfl | ⟨k, hk⟩)
      · exact ⟨m.seq.seqId, Function.update_self ..⟩
      · refine ⟨k, ?_⟩
        rw [Function.update_of_ne, hk]
        rintro rfl
        rw [hnone] at hk
        cases hk
    refine ⟨fun q hused => hother q ?_, fun q hq hused => hother q ?_⟩
    · by_cases hqr : q = r
      · exact .inl hqr
      · simp only [Function.update_of_ne hqr] at hused
        exact .inr (h.recorded q hused)
    · by_cases hqr : q = r
      · exact .inl hqr
      · simp only [State.setReqSeqLength, Function.update_of_ne hqr] at hused
        exact .inr (h.allocated q hq hused)

/-- **A batch finds its slots**, if its sequences and those that have slots are among as many as
    there are slots. -/
theorem recordBatch_succeeds {ids : List SeqId} (h : SlotsHeld c)
    (hlen : ids.length ≤ c.config.maxBatchSize) (howners : ∀ k, c.HasSlot k → k ∈ ids)
    (hbatch : ∀ m ∈ metas, m.seq.seqId ∈ ids) : ∃ c', c.recordBatch metas = .ok c' := by
  induction metas generalizing c with
  | nil => exact ⟨c, rfl⟩
  | cons m metas ih =>
    rw [List.forall_mem_cons] at hbatch
    obtain ⟨c₁, hfst⟩ := recordContext_succeeds h hlen howners hbatch.1
    rw [← (recordContext_config hfst).1] at hlen
    have howners₁ : ∀ k, c₁.HasSlot k → k ∈ ids := by
      intro k hk
      rcases (recordContext_hasSlot hfst).mp hk with hk | rfl
      · exact howners k hk
      · exact hbatch.1
    obtain ⟨c', hrest⟩ := ih (h.recordContext hfst) hlen howners₁ hbatch.2
    exact ⟨c', seq_eq_ok.mpr ⟨c₁, hfst, hrest⟩⟩

/-- A call of the allocator that returns leaves it with the lengths it was given. -/
theorem callAllocator_lens {reserved : List Page}
    (hpages : PageInv c.config reserved c.allocator) (h : c.callAllocator = .ok c') :
    PageInv c.config reserved c'.allocator ∧
      ∀ r, r < c.config.maxBatchSize → c'.allocator.currSeqLengths r = c.currSeqLens r := by
  obtain ⟨allocator, rfl, ⟨-, hdone⟩ | ⟨-, hdone⟩⟩ := callAllocator_done h
  · have hsafe := stepSync_safe c.currSeqLens true hpages
    rw [hdone] at hsafe
    exact ⟨hsafe, stepSync_lengths hpages hdone⟩
  · have hsafe := (stepAsync_safe c.currSeqLens hpages).andThen fun _ hs =>
      doKvcacheMemoryManagement_safe hs
    rw [hdone] at hsafe
    exact ⟨hsafe, fun r _ => congrFun (stepAsync_lengths hpages hdone) r⟩

/-- **A step keeps the table in order**, if no context is empty. -/
theorem TableInv.step (h : TableInv c) (hpos : ∀ m ∈ metas, 0 < contextLen m)
    (hstep : c.step metas = .ok c') : TableInv c' ∧ c'.config = c.config := by
  obtain ⟨c₁, hrecord, hcall⟩ := seq_eq_ok.mp hstep
  have hrecord₁ := h.record.recordBatch hpos hrecord
  have hheld₁ : SlotsHeld c₁ ∧ c₁.config = c.config := by
    refine foldlM_ok_induction (I := fun _ (c₁ : VAttnCacheEngine) =>
      SlotsHeld c₁ ∧ c₁.config = c.config) ?_ metas c c₁ hrecord ⟨h.held, rfl⟩
    rintro m _ c₂ c₃ hrec ⟨hheld, hconfig⟩
    exact ⟨hheld.recordContext hrec, (recordContext_config hrec).1.trans hconfig⟩
  obtain ⟨reserved, hpages⟩ := h.pages
  obtain ⟨hpages', hlens⟩ := callAllocator_lens (recordBatch_pageInv hpages hrecord) hcall
  rw [callAllocator_eq_ok hcall]
  refine ⟨⟨⟨hrecord₁.range, fun id r hslot => ?_, hrecord₁.injective⟩,
    ⟨hheld₁.1.recorded, fun r hr hused => ?_⟩, hlens, reserved, hpages'⟩, hheld₁.2⟩
  · obtain ⟨hactive, -⟩ := hrecord₁.active id r hslot
    refine ⟨hactive, ?_⟩
    rw [hlens r (hrecord₁.range id r hslot)]
    exact hactive
  · rw [hlens r hr] at hused
    exact hheld₁.1.recorded r hused

end VAttention.Worker.VAttnCacheEngine
