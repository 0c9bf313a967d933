import VAttention.Allocator.Demand
import VAttention.Worker.Slots

/-!
# Blocks behind the request slots

Between two calls the cache engine and the allocator agree on the length of every slot, every
sequence has a slot of its own, and the blocks for all lengths exist.  `SlotInv` states this.
Releasing a slot gives back what its length needs; recording a batch needs, for each entry,
what its context exceeds the length recorded so far.
-/

namespace VAttention.Worker.VAttnCacheEngine

open VAttention.Core VAttention.Lib VAttention.Manager VAttention.Executor
open VAttention.Allocator hiding State

variable {c c' : VAttnCacheEngine} {id : SeqId} {reserved : List Page}

/-! ## The invariant -/

/-- Blocks behind the slot of a sequence, by its recorded length. -/
def recordedPages (c : VAttnCacheEngine) (id : SeqId) : Nat :=
  match c.seqToBatchIdx id with
  | some r => c.config.tokensToPages (c.currSeqLens r)
  | none => 0

/-- The cache engine between two calls. -/
structure SlotInv (reserved : List Page) (c : VAttnCacheEngine) : Prop where
  sync : c.vattnAsync = false
  pages : PageInv c.config reserved c.allocator
  lens : ∀ r, r < c.config.maxBatchSize → c.allocator.currSeqLengths r = c.currSeqLens r
  slot_lt : ∀ id r, c.seqToBatchIdx id = some r → r < c.config.maxBatchSize
  active : ∀ id r, c.seqToBatchIdx id = some r → c.currSeqLens r ≠ 0
  injective : ∀ id k r, c.seqToBatchIdx id = some r → c.seqToBatchIdx k = some r → id = k
  fits : totalPages c.config c.currSeqLens ≤ totalKvblocks c.config reserved

theorem SlotInv.new (config : Allocator.Config) (newPage : Nat → Page) (cacheMemSize : Nat) :
    SlotInv (VAttnCacheEngine.new config false newPage cacheMemSize).allocator.pages
      (.new config false newPage cacheMemSize) where
  sync := rfl
  pages := reservePhysicalPages_inv newPage cacheMemSize
  lens _ _ := rfl
  slot_lt _ _ hslot := by cases hslot
  active _ _ hslot := by cases hslot
  injective _ _ _ hslot := by cases hslot
  fits := by
    have hzero : totalPages config (fun _ => 0) = 0 := by
      simp [totalPages, totalMapped, config.tokensToPages_zero]
    exact hzero ▸ Nat.zero_le _

theorem SlotInv.totalPages_allocator (h : SlotInv reserved c) :
    totalPages c.config c.allocator.currSeqLengths = totalPages c.config c.currSeqLens := by
  refine congrArg List.sum (List.map_congr_left fun r hr => ?_)
  rw [h.lens r (List.mem_range.mp hr)]

/-- The table refers to slots of the allocator. -/
def SlotsInRange (c : VAttnCacheEngine) : Prop :=
  ∀ id r, c.seqToBatchIdx id = some r → r < c.config.maxBatchSize

/-- The slot of a sequence, if it has one, is in use for the allocator. -/
def SlotActive (c : VAttnCacheEngine) (id : SeqId) : Prop :=
  ∀ r, c.seqToBatchIdx id = some r → c.allocator.currSeqLengths r ≠ 0

theorem SlotInv.slotActive (h : SlotInv reserved c) (id : SeqId) : c.SlotActive id := by
  intro r hslot
  rw [h.lens r (h.slot_lt id r hslot)]
  exact h.active id r hslot

/-- What the recording of a batch keeps, if no context is empty. -/
structure RecordInv (c : VAttnCacheEngine) : Prop where
  range : c.SlotsInRange
  active : ∀ id r, c.seqToBatchIdx id = some r →
    c.currSeqLens r ≠ 0 ∧ c.allocator.currSeqLengths r ≠ 0
  injective : ∀ id k r, c.seqToBatchIdx id = some r → c.seqToBatchIdx k = some r → id = k

theorem SlotInv.recordInv (h : SlotInv reserved c) : RecordInv c :=
  ⟨h.slot_lt, fun id r hslot => ⟨h.active id r hslot, h.slotActive id r hslot⟩,
    h.injective⟩

/-- The free blocks that the cache engine reports. -/
theorem SlotInv.numFreeBlocks_add_le (h : SlotInv reserved c) :
    c.numFreeBlocks + totalPages c.config c.currSeqLens ≤ totalKvblocks c.config reserved := by
  have hfree := h.pages.numFreeKvblocks_add_le (h.totalPages_allocator ▸ h.fits)
  rwa [h.totalPages_allocator] at hfree

/-! ## Releasing slots -/

theorem freeRequest_recordedPages (h : SlotInv reserved c) (hfree : c.freeRequest id = .ok c')
    (k : SeqId) : c'.recordedPages k = if k = id then 0 else c.recordedPages k := by
  obtain ⟨r, hslot, rfl⟩ := freeRequest_eq_ok hfree
  unfold recordedPages
  split_ifs with hk
  · simp [hk]
  · dsimp only
    rw [Function.update_of_ne hk]
    cases hother : c.seqToBatchIdx k with
    | none => rfl
    | some q =>
      have hq : q ≠ r := by
        rintro rfl
        exact hk (h.injective k id q hother hslot)
      simp [hq]

/-- Releasing a slot gives back its blocks. -/
theorem freeRequest_totalPages (h : SlotInv reserved c) (hfree : c.freeRequest id = .ok c') :
    totalPages c'.config c'.currSeqLens + c.recordedPages id =
      totalPages c.config c.currSeqLens := by
  obtain ⟨r, hslot, rfl⟩ := freeRequest_eq_ok hfree
  have hsum := totalPages_update c.config c.currSeqLens (h.slot_lt id r hslot) 0
  rw [c.config.tokensToPages_zero, Nat.add_zero] at hsum
  simpa [recordedPages, hslot] using hsum

theorem RecordInv.freeRequest (h : RecordInv c) (hfree : c.freeRequest id = .ok c') :
    RecordInv c' := by
  obtain ⟨r, hslot, rfl⟩ := freeRequest_eq_ok hfree
  -- the slots of the other sequences are other slots
  have hothers : ∀ k q, Function.update c.seqToBatchIdx id none k = some q →
      c.seqToBatchIdx k = some q ∧ q ≠ r := by
    intro k q hk
    by_cases hid : k = id
    · rw [hid, Function.update_self] at hk
      cases hk
    · rw [Function.update_of_ne hid] at hk
      refine ⟨hk, ?_⟩
      rintro rfl
      exact hid (h.injective k id q hk hslot)
  constructor
  case range => exact fun k q hk => h.range k q (hothers k q hk).1
  case active =>
    intro k q hk
    obtain ⟨hold, hne⟩ := hothers k q hk
    simp only [freeBatchIdx, State.setReqSeqLength, Function.update_of_ne hne]
    exact h.active k q hold
  case injective =>
    intro k l q hk hl
    exact h.injective k l q (hothers k q hk).1 (hothers l q hl).1

/-- Releasing a slot sets its length on both sides. -/
theorem freeRequest_lens
    (h : ∀ r, r < c.config.maxBatchSize → c.allocator.currSeqLengths r = c.currSeqLens r)
    (hfree : c.freeRequest id = .ok c') :
    ∀ r, r < c'.config.maxBatchSize → c'.allocator.currSeqLengths r = c'.currSeqLens r := by
  obtain ⟨r, -, rfl⟩ := freeRequest_eq_ok hfree
  intro q hq
  simp only [freeBatchIdx, State.setReqSeqLength]
  by_cases hqr : q = r
  · rw [hqr, Function.update_self, Function.update_self]
  · rw [Function.update_of_ne hqr, Function.update_of_ne hqr]
    exact h q hq

theorem SlotInv.freeRequest (h : SlotInv reserved c) (hfree : c.freeRequest id = .ok c') :
    SlotInv reserved c' := by
  have htotal := freeRequest_totalPages h hfree
  have hrecord := h.recordInv.freeRequest hfree
  have hlens := freeRequest_lens h.lens hfree
  obtain ⟨r, hslot, rfl⟩ := freeRequest_eq_ok hfree
  constructor
  case sync => exact h.sync
  case pages => exact h.pages.setReqSeqLength r 0
  case lens => exact hlens
  case slot_lt => exact hrecord.range
  case active => exact fun k q hk => (hrecord.active k q hk).1
  case injective => exact hrecord.injective
  case fits => exact (Nat.le_of_add_right_le (Nat.le_of_eq htotal)).trans h.fits

/-- Delivering a preemption queue gives back the blocks of its sequences. -/
theorem SlotInv.preemptRequests {ids : List SeqId} (h : SlotInv reserved c)
    (hrun : c.preemptRequests ids = .ok c') :
    SlotInv reserved c' ∧ c'.config = c.config ∧
      totalPages c'.config c'.currSeqLens + (ids.map c.recordedPages).sum =
        totalPages c.config c.currSeqLens ∧
      ∀ k, c'.recordedPages k = if k ∈ ids then 0 else c.recordedPages k := by
  induction ids generalizing c with
  | nil =>
    cases hrun
    exact ⟨h, rfl, rfl, fun k => rfl⟩
  | cons id ids ih =>
    obtain ⟨c₁, hfree, hrest⟩ := seq_eq_ok.mp hrun
    have hpages₁ := freeRequest_recordedPages h hfree
    obtain ⟨hinv, hconfig, htotal, hpages⟩ := ih (h.freeRequest hfree) hrest
    have hconfig₁ : c₁.config = c.config := by
      obtain ⟨r, -, rfl⟩ := freeRequest_eq_ok hfree
      rfl
    -- a sequence is not released twice
    have hnot : id ∉ ids := by
      intro hmem
      have hslot := preemptRequests_mem_hasSlot hrest hmem
      exact ((freeRequest_hasSlot hfree).mp hslot).2 rfl
    -- so the other sequences of the queue have as many blocks as before
    have hsame : ids.map c₁.recordedPages = ids.map c.recordedPages := by
      refine List.map_congr_left fun k hk => ?_
      rw [hpages₁, if_neg (ne_of_mem_of_not_mem hk hnot)]
    refine ⟨hinv, hconfig.trans hconfig₁, ?_, fun k => ?_⟩
    · have hone := freeRequest_totalPages h hfree
      rw [hsame] at htotal
      rw [List.map_cons, List.sum_cons]
      omega
    · rw [hpages, hpages₁]
      by_cases hk : k = id
      · simp [hk]
      · simp [hk]

/-! ## Recording a batch -/

/-- Blocks that the allocator may need at once in the coming call of `step_sync`. -/
def peak (c : VAttnCacheEngine) : Nat :=
  peakPages c.config c.allocator.currSeqLengths c.currSeqLens

/-- Blocks behind the slot of a sequence, by the length that the allocator has. -/
def allocatedPages (c : VAttnCacheEngine) (id : SeqId) : Nat :=
  match c.seqToBatchIdx id with
  | some r => c.config.tokensToPages (c.allocator.currSeqLengths r)
  | none => 0

variable {m : SequenceMetadata} {metas : List SequenceMetadata}

/-- The two ways to record an entry: in the slot it has, or in an inactive one. -/
theorem recordContext_eq_ok (h : c.recordContext m = .ok c') :
    (∃ r, c.seqToBatchIdx m.seq.seqId = some r ∧
      c' = { c with currSeqLens := Function.update c.currSeqLens r (contextLen m) }) ∨
    ∃ r, c.seqToBatchIdx m.seq.seqId = none ∧ r < c.config.maxBatchSize ∧
      c.allocator.currSeqLengths r = 0 ∧
      c' = { c with
        allocator := c.allocator.setReqSeqLength r (contextLen m)
        seqToBatchIdx := Function.update c.seqToBatchIdx m.seq.seqId (some r)
        currSeqLens := Function.update c.currSeqLens r (contextLen m) } := by
  obtain ⟨⟨r, c₁⟩, hidx, hrec⟩ := seq_eq_ok.mp h
  cases hrec
  rcases getReqBatchIdx_eq_ok hidx with ⟨hslot, rfl⟩ | ⟨hnone, hfind, rfl⟩
  · exact .inl ⟨r, hslot, rfl⟩
  · obtain ⟨hr, hinactive⟩ := findBatchIdx_inactive hfind
    exact .inr ⟨r, hnone, hr, hinactive, rfl⟩

theorem recordContext_config (h : c.recordContext m = .ok c') :
    c'.config = c.config ∧ c'.vattnAsync = c.vattnAsync := by
  rcases recordContext_eq_ok h with ⟨r, -, rfl⟩ | ⟨r, -, -, -, rfl⟩ <;> exact ⟨rfl, rfl⟩

theorem SlotsInRange.recordContext (hrange : c.SlotsInRange) (h : c.recordContext m = .ok c') :
    c'.SlotsInRange := by
  rcases recordContext_eq_ok h with ⟨r, -, rfl⟩ | ⟨r, -, hr, -, rfl⟩
  · exact hrange
  · intro k q hk
    by_cases hid : k = m.seq.seqId
    · rw [hid] at hk
      simp only [Function.update_self, Option.some.injEq] at hk
      exact hk ▸ hr
    · simp only [Function.update_of_ne hid] at hk
      exact hrange k q hk

/-- An entry costs what its context exceeds the length its slot has. -/
theorem recordContext_peak (hrange : c.SlotsInRange) (h : c.recordContext m = .ok c') :
    c'.peak ≤ c.peak +
      (c.config.tokensToPages (contextLen m) - c.allocatedPages m.seq.seqId) := by
  rcases recordContext_eq_ok h with ⟨r, hslot, rfl⟩ | ⟨r, hnone, hr, -, rfl⟩
  · rw [allocatedPages, hslot]
    exact peakPages_update_le c.config _ _ (hrange _ r hslot) _
  · rw [allocatedPages, hnone]
    exact peakPages_update_both_le c.config _ _ hr _

/-- Recording an entry leaves the other active slots alone. -/
theorem recordContext_of_ne (h : c.recordContext m = .ok c') {k : SeqId}
    (hk : k ≠ m.seq.seqId) (hactive : c.SlotActive k) :
    c'.SlotActive k ∧ c'.allocatedPages k = c.allocatedPages k := by
  rcases recordContext_eq_ok h with ⟨r, -, rfl⟩ | ⟨r, -, -, hinactive, rfl⟩
  · exact ⟨hactive, rfl⟩
  · -- the new slot was inactive
    have hne : ∀ q, c.seqToBatchIdx k = some q → q ≠ r := by
      rintro q hq rfl
      exact hactive q hq hinactive
    constructor
    · intro q hq
      simp only [Function.update_of_ne hk] at hq
      simp only [State.setReqSeqLength, Function.update_of_ne (hne q hq)]
      exact hactive q hq
    · simp only [allocatedPages, Function.update_of_ne hk]
      cases hslot : c.seqToBatchIdx k with
      | none => rfl
      | some q => simp only [State.setReqSeqLength, Function.update_of_ne (hne q hslot)]

/-- **The demand of a batch**: each entry costs what its context exceeds the length its slot
    had when the recording began. -/
theorem recordBatch_peak (hrange : c.SlotsInRange)
    (hnodup : (metas.map fun m => m.seq.seqId).Nodup)
    (hactive : ∀ m ∈ metas, c.SlotActive m.seq.seqId) (h : c.recordBatch metas = .ok c') :
    c'.config = c.config ∧ c'.vattnAsync = c.vattnAsync ∧
      c'.peak ≤ c.peak + (metas.map fun m =>
        c.config.tokensToPages (contextLen m) - c.allocatedPages m.seq.seqId).sum := by
  induction metas generalizing c with
  | nil =>
    cases h
    exact ⟨rfl, rfl, le_rfl⟩
  | cons m metas ih =>
    obtain ⟨c₁, hfst, hrest⟩ := seq_eq_ok.mp h
    obtain ⟨hconfig, hasync⟩ := recordContext_config hfst
    rw [List.map_cons, List.nodup_cons] at hnodup
    -- the entries still to come do not notice this one
    have hother : ∀ m' ∈ metas, c₁.SlotActive m'.seq.seqId ∧
        c₁.allocatedPages m'.seq.seqId = c.allocatedPages m'.seq.seqId := by
      intro m' hm'
      refine recordContext_of_ne hfst ?_ (hactive m' (List.mem_cons_of_mem _ hm'))
      intro heq
      exact hnodup.1 (heq ▸ List.mem_map_of_mem hm')
    obtain ⟨hconfig', hasync', hpeak⟩ := ih (hrange.recordContext hfst) hnodup.2
      (fun m' hm' => (hother m' hm').1) hrest
    refine ⟨hconfig'.trans hconfig, hasync'.trans hasync, ?_⟩
    have hsame : (metas.map fun m => c₁.config.tokensToPages (contextLen m) -
          c₁.allocatedPages m.seq.seqId) =
        metas.map fun m => c.config.tokensToPages (contextLen m) -
          c.allocatedPages m.seq.seqId := by
      refine List.map_congr_left fun m' hm' => ?_
      rw [hconfig, (hother m' hm').2]
    have hone := recordContext_peak hrange hfst
    rw [hsame] at hpeak
    rw [List.map_cons, List.sum_cons]
    omega

/-! ## The call of the allocator -/

theorem SlotInv.allocatedPages_eq (h : SlotInv reserved c) (id : SeqId) :
    c.allocatedPages id = c.recordedPages id := by
  unfold allocatedPages recordedPages
  cases hslot : c.seqToBatchIdx id with
  | none => rfl
  | some r =>
    dsimp only
    rw [h.lens r (h.slot_lt id r hslot)]

/-- The blocks that a batch needs besides those its sequences have. -/
def batchGrowth (c : VAttnCacheEngine) (metas : List SequenceMetadata) : Nat :=
  (metas.map fun m =>
    c.config.tokensToPages (contextLen m) - c.recordedPages m.seq.seqId).sum

/-- The peak of a batch, from the invariant. -/
theorem SlotInv.recordBatch_peak_le (h : SlotInv reserved c)
    (hnodup : (metas.map fun m => m.seq.seqId).Nodup) (hrecord : c.recordBatch metas = .ok c') :
    c'.config = c.config ∧ c'.vattnAsync = false ∧
      c'.peak ≤ totalPages c.config c.currSeqLens + c.batchGrowth metas := by
  obtain ⟨hconfig, hasync, hpeak⟩ := recordBatch_peak h.slot_lt hnodup
    (fun m _ => h.slotActive m.seq.seqId) hrecord
  refine ⟨hconfig, hasync.trans h.sync, ?_⟩
  -- before the batch the allocator has the lengths that were recorded last
  have hstart : c.peak = totalPages c.config c.currSeqLens :=
    peakPages_eq_totalPages fun r hr => (congrArg _ (h.lens r hr)).le
  rw [hstart] at hpeak
  simp only [h.allocatedPages_eq] at hpeak
  exact hpeak

/-- Recording a batch maps and unmaps nothing. -/
theorem recordBatch_pageInv (hpages : PageInv c.config reserved c.allocator)
    (h : c.recordBatch metas = .ok c') : PageInv c'.config reserved c'.allocator := by
  refine foldlM_ok_induction (I := fun _ (c : VAttnCacheEngine) =>
    PageInv c.config reserved c.allocator) ?_ metas c c' h hpages
  intro m _ c c' hstep hc
  rcases recordContext_eq_ok hstep with ⟨r, -, rfl⟩ | ⟨r, -, -, -, rfl⟩
  · exact hc
  · exact hc.setReqSeqLength r _

theorem RecordInv.recordContext (hinv : RecordInv c) (hpos : 0 < contextLen m)
    (h : c.recordContext m = .ok c') : RecordInv c' := by
  have hrange := hinv.range.recordContext h
  rcases recordContext_eq_ok h with ⟨r, hslot, rfl⟩ | ⟨r, hnone, -, hinactive, rfl⟩
  · refine ⟨hrange, fun id q hq => ⟨?_, (hinv.active id q hq).2⟩, hinv.injective⟩
    by_cases hqr : q = r
    · simp only [hqr, Function.update_self]
      omega
    · simp only [Function.update_of_ne hqr]
      exact (hinv.active id q hq).1
  · -- a slot in the table was there before, or is the new one
    have hcases : ∀ k q, Function.update c.seqToBatchIdx m.seq.seqId (some r) k = some q →
        k = m.seq.seqId ∧ q = r ∨ c.seqToBatchIdx k = some q ∧ q ≠ r := by
      intro k q hk
      by_cases hid : k = m.seq.seqId
      · rw [hid, Function.update_self, Option.some.injEq] at hk
        exact .inl ⟨hid, hk.symm⟩
      · rw [Function.update_of_ne hid] at hk
        refine .inr ⟨hk, ?_⟩
        rintro rfl
        exact (hinv.active k q hk).2 hinactive
    refine ⟨hrange, fun k q hk => ?_, fun k l q hk hl => ?_⟩
    · rcases hcases k q hk with ⟨-, rfl⟩ | ⟨hold, hne⟩
      · simp only [State.setReqSeqLength, Function.update_self]
        omega
      · simp only [State.setReqSeqLength, Function.update_of_ne hne]
        exact hinv.active k q hold
    · rcases hcases k q hk with ⟨rfl, rfl⟩ | ⟨hold, hne⟩ <;>
        rcases hcases l q hl with ⟨rfl, hq⟩ | ⟨hold', hne'⟩
      · rfl
      · exact absurd rfl hne'
      · exact absurd hq hne
      · exact hinv.injective k l q hold hold'

theorem RecordInv.recordBatch (hinv : RecordInv c) (hpos : ∀ m ∈ metas, 0 < contextLen m)
    (h : c.recordBatch metas = .ok c') : RecordInv c' := by
  induction metas generalizing c with
  | nil =>
    cases h
    exact hinv
  | cons m metas ih =>
    obtain ⟨c₁, hfst, hrest⟩ := seq_eq_ok.mp h
    rw [List.forall_mem_cons] at hpos
    exact ih (hinv.recordContext hpos.1 hfst) hpos.2 hrest

/-- A synchronous call of the allocator whose peak fits. -/
theorem callAllocator_sync (hsync : c.vattnAsync = false)
    (hpages : PageInv c.config reserved c.allocator)
    (hpeak : c.peak ≤ totalKvblocks c.config reserved) :
    ∃ allocator, c.callAllocator = .ok { c with allocator } ∧
      PageInv c.config reserved allocator ∧
      ∀ r, r < c.config.maxBatchSize → allocator.currSeqLengths r = c.currSeqLens r := by
  obtain ⟨allocator, hrun, hinv, hlens⟩ := stepSync_done c.currSeqLens true hpages hpeak
  refine ⟨allocator, ?_, hinv, hlens⟩
  simp [callAllocator, hsync, hrun]

/-- **The allocator serves a batch** whose blocks fit besides those that are in use. -/
theorem SlotInv.callAllocator_done (h : SlotInv reserved c)
    (hnodup : (metas.map fun m => m.seq.seqId).Nodup) (hrecord : c.recordBatch metas = .ok c')
    (hfits : totalPages c.config c.currSeqLens + c.batchGrowth metas ≤
      totalKvblocks c.config reserved) :
    totalPages c'.config c'.currSeqLens ≤ totalKvblocks c.config reserved ∧
      ∃ c'', c'.callAllocator = .ok c'' := by
  obtain ⟨hconfig, hsync, hpeak⟩ := h.recordBatch_peak_le hnodup hrecord
  have hle := hpeak.trans hfits
  refine ⟨(totalPages_le_peakPages ..).trans hle, ?_⟩
  obtain ⟨allocator, hcall, -⟩ := callAllocator_sync hsync
    (recordBatch_pageInv h.pages hrecord) (hconfig ▸ hle)
  exact ⟨_, hcall⟩

/-- A step whose blocks fit and whose contexts are not empty keeps the invariant. -/
theorem SlotInv.step (h : SlotInv reserved c) (hnodup : (metas.map fun m => m.seq.seqId).Nodup)
    (hpos : ∀ m ∈ metas, 0 < contextLen m)
    (hfits : totalPages c.config c.currSeqLens + c.batchGrowth metas ≤
      totalKvblocks c.config reserved)
    (hstep : c.step metas = .ok c') : SlotInv reserved c' ∧ c'.config = c.config := by
  obtain ⟨c₁, hrecord, hcall⟩ := seq_eq_ok.mp hstep
  obtain ⟨hconfig, hsync, hpeak⟩ := h.recordBatch_peak_le hnodup hrecord
  have hle : c₁.peak ≤ totalKvblocks c₁.config reserved := hconfig ▸ hpeak.trans hfits
  obtain ⟨allocator, hdone, hpages, hlens⟩ := callAllocator_sync hsync
    (recordBatch_pageInv h.pages hrecord) hle
  obtain rfl : { c₁ with allocator } = c' := Except.ok.inj (hdone.symm.trans hcall)
  -- no context is empty, so every slot in the table is in use
  have hinv := h.recordInv.recordBatch hpos hrecord
  refine ⟨⟨hsync, hpages, hlens, hinv.range, fun id r hslot => (hinv.active id r hslot).1,
    hinv.injective, (totalPages_le_peakPages ..).trans hle⟩, hconfig⟩

theorem SlotInv.onStepCompletion (h : SlotInv reserved c)
    (hrun : c.onStepCompletion metas = .ok c') : SlotInv reserved c' ∧ c'.config = c.config := by
  refine foldlM_ok_induction (I := fun _ (c' : VAttnCacheEngine) =>
    SlotInv reserved c' ∧ c'.config = c.config) ?_ metas c c' hrun ⟨h, rfl⟩
  rintro m _ c₁ c₂ hstep ⟨hinv, hconfig⟩
  split_ifs at hstep
  · refine ⟨hinv.freeRequest hstep, ?_⟩
    obtain ⟨r, -, rfl⟩ := freeRequest_eq_ok hstep
    exact hconfig
  · cases hstep
    exact ⟨hinv, hconfig⟩

/-! ## Contexts are not empty -/

/-- An entry for which there is model input has a context. -/
theorem contextLen_pos {rows : List InputRow} (h : inputRows m = .ok rows) : 0 < contextLen m := by
  unfold contextLen
  unfold inputRows at h
  split_ifs at h ⊢ with hprompt
  · obtain ⟨tokens, htokens, -⟩ := seq_eq_ok.mp h
    obtain ⟨⟨⟩, hend, -⟩ := seq_eq_ok.mp htokens
    simp only [assertThat_eq_ok, decide_eq_true_eq] at hend
    simp only [SequenceMetadata.isPrompt, decide_eq_true_eq] at hprompt
    simp only [Sequence.getNextPromptChunkLen]
    omega
  · obtain ⟨token, htoken, -⟩ := seq_eq_ok.mp h
    exact getLen_pos_of_lastToken htoken

end VAttention.Worker.VAttnCacheEngine
