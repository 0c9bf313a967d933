import VAttention.Core.Blocks
import VAttention.Engine.Preemption

/-!
# Capacity

`_init_cache` refuses to start with fewer blocks than a request of the maximal length needs.
Two things are meant to follow from that: every admissible request fits into an idle system, and
the oldest request is never evicted for lack of memory.  Both need more than the check gives.

- The block managers keep the watermark free on top of what a request needs.
- The paged manager asks for a free block even if the next token goes into a block that the
  sequence already has.
-/

namespace VAttention.Engine

open VAttention.Core VAttention.Lib VAttention.Scheduler VAttention.Manager VAttention.Worker

/-! ## Initialisation -/

/-- What `_init_cache` writes to the cache configuration. -/
structure CacheBudget where
  numGpuBlocks : Nat
  memoryForGpu : Int
  deriving DecidableEq, Repr

/-- `_init_cache`, from what the workers have profiled: for each of them the number of blocks that
    fit and its physical memory. -/
def initCache (outputAll : List (Int × Int)) (cacheBlockSize : Int)
    (maxModelLen blockSize maxNumSeqs : Nat) : Except PyError CacheBudget :=
  match (outputAll.map Prod.fst).min?, (outputAll.map Prod.snd).min? with
  | some profiled, some physicalMemory => do
    raiseIf (profiled ≤ 0) (.valueError ("No available memory for the cache blocks. " ++
      "Try increasing `gpu_memory_utilization` when initializing the engine."))
    raiseIf (blockSize = 0) (.exception "division by zero")
    let maxBlocksPerRequest := ceilDiv maxModelLen blockSize
    let numGpuBlocks := min profiled.toNat (maxBlocksPerRequest * maxNumSeqs)
    raiseIf (numGpuBlocks < maxBlocksPerRequest) (.valueError (
      s!"Not enough available memory to schedule a request will maximum allowed length " ++
      s!"{maxModelLen}. Need {maxBlocksPerRequest}, available {numGpuBlocks} gpu blocks. " ++
      "Try decreasing `max_batch_size`, `max_model_len`."))
    pure { numGpuBlocks, memoryForGpu := min physicalMemory (numGpuBlocks * cacheBlockSize) }
  | _, _ => .error (.valueError "not enough values to unpack (expected 2, got 0)")

/-- What the checks of `_init_cache` guarantee. -/
theorem initCache_eq_ok {outputAll : List (Int × Int)} {cacheBlockSize : Int}
    {maxModelLen blockSize maxNumSeqs : Nat} {budget : CacheBudget}
    (h : initCache outputAll cacheBlockSize maxModelLen blockSize maxNumSeqs = .ok budget) :
    0 < blockSize ∧ ceilDiv maxModelLen blockSize ≤ budget.numGpuBlocks := by
  unfold initCache at h
  split at h
  case h_2 => cases h
  case h_1 =>
    obtain ⟨_, -, h⟩ := seq_eq_ok.mp h
    obtain ⟨_, hblock, h⟩ := seq_eq_ok.mp h
    obtain ⟨_, hroom, h⟩ := seq_eq_ok.mp h
    cases h
    simp only [raiseIf_eq_ok, decide_eq_false_iff_not, Nat.not_lt] at hblock hroom
    exact ⟨Nat.pos_of_ne_zero hblock, hroom⟩

/-! ## Requests in an idle system -/

/-- A vLLM or Sarathi manager none of whose blocks is in use. -/
structure IdlePaged (numGpuBlocks : Nat) (m : PagedBlockManager) : Prop where
  watermarkBlocks : m.watermarkBlocks = Core.watermarkBlocks numGpuBlocks
  requestNumBlocks : m.requestNumBlocks = none
  freeBlocks : m.freeBlocks.Perm (List.range numGpuBlocks)

/-- A vAttention manager none of whose blocks is in use or promised. -/
structure IdleVAttention (blockSize numGpuBlocks : Nat) (m : VAttentionBlockManager) : Prop where
  blockSize : m.blockSize = blockSize
  watermarkBlocks : m.watermarkBlocks = Core.watermarkBlocks numGpuBlocks
  promisedBlocks : m.promisedBlocks = 0
  freeBlocks : m.freeBlocks = numGpuBlocks

theorem idlePaged_newVllm (numGpuBlocks : Nat) : IdlePaged numGpuBlocks (.newVllm numGpuBlocks) :=
  ⟨rfl, rfl, List.reverse_perm _⟩

/-- Both managers compare the blocks of the sequence, and the watermark, with all blocks. -/
theorem IdlePaged.canAllocate_iff {numGpuBlocks : Nat} {m : PagedBlockManager} {s : Sequence}
    (h : IdlePaged numGpuBlocks m) (hpacked : s.BlocksPacked) :
    m.canAllocate s = true ↔
      Core.watermarkBlocks numGpuBlocks + ceilDiv s.getLen s.blockSize ≤ numGpuBlocks := by
  simp [PagedBlockManager.canAllocate, PagedBlockManager.getNumInitialBlocks, h.watermarkBlocks,
    h.requestNumBlocks, h.freeBlocks.length_eq, hpacked.length_eq]

theorem IdleVAttention.canAllocate_iff {numGpuBlocks : Nat} {m : VAttentionBlockManager}
    {s : Sequence} (h : IdleVAttention s.blockSize numGpuBlocks m) :
    m.canAllocate s = true ↔
      Core.watermarkBlocks numGpuBlocks + ceilDiv s.getLen s.blockSize ≤ numGpuBlocks := by
  simp [VAttentionBlockManager.canAllocate, VAttentionBlockManager.getNumBlocks, h.watermarkBlocks,
    h.blockSize, h.promisedBlocks, h.freeBlocks]

/-- **Admissible requests in an idle system**: after `_init_cache` has accepted, every sequence of
    at most `max_model_len` tokens fits into an idle system, with either family of block managers,
    exactly if the blocks of the longest one leave the watermark free. -/
theorem admissible_fits_idle_iff {outputAll : List (Int × Int)} {cacheBlockSize : Int}
    {maxModelLen blockSize maxNumSeqs : Nat} {budget : CacheBudget}
    (hinit : initCache outputAll cacheBlockSize maxModelLen blockSize maxNumSeqs = .ok budget) :
    (∀ s : Sequence, s.blockSize = blockSize → s.BlocksPacked →
      1 ≤ s.getLen → s.getLen ≤ maxModelLen →
      (∀ m, IdlePaged budget.numGpuBlocks m → m.canAllocate s = true) ∧
      (∀ m, IdleVAttention blockSize budget.numGpuBlocks m → m.canAllocate s = true)) ↔
    watermarkBlocks budget.numGpuBlocks + ceilDiv maxModelLen blockSize ≤ budget.numGpuBlocks := by
  obtain ⟨hblock, -⟩ := initCache_eq_ok hinit
  constructor
  · intro hfits
    rcases Nat.eq_zero_or_pos maxModelLen with rfl | hpos
    · -- there is no sequence to fit
      have hzero : ceilDiv 0 blockSize = 0 := by
        rw [← Nat.le_zero, ceilDiv_le_iff hblock]
        exact Nat.zero_le _
      rw [hzero]
      exact Nat.div_le_self _ _
    · -- a prompt of the maximal length
      have hpacked := Sequence.blocksPacked_new 0 [] (List.replicate maxModelLen 0) hblock none 0 {}
      have hlen : (Sequence.new 0 [] (List.replicate maxModelLen 0) blockSize none 0 {}).getLen =
          maxModelLen :=
        (Sequence.getLen_new ..).trans List.length_replicate
      have hroom := (idlePaged_newVllm budget.numGpuBlocks).canAllocate_iff hpacked
      rw [hlen] at hroom
      apply hroom.mp
      exact (hfits _ rfl hpacked (by rwa [hlen]) hlen.le).1 _ (idlePaged_newVllm _)
  · rintro hroom s rfl hpacked - hle
    have hneeds : watermarkBlocks budget.numGpuBlocks + ceilDiv s.getLen s.blockSize ≤
        budget.numGpuBlocks :=
      (Nat.add_le_add_left (ceilDiv_mono hblock hle) _).trans hroom
    exact ⟨fun m hm => (hm.canAllocate_iff hpacked).mpr hneeds,
      fun m hm => hm.canAllocate_iff.mpr hneeds⟩

/-- With room for two requests at a time, the watermark is no obstacle. -/
theorem two_requests_fit :
    initCache [(300, 10000)] 1 1600 16 2 = .ok ⟨200, 200⟩ ∧
      ∀ s : Sequence, s.blockSize = 16 → s.BlocksPacked → 1 ≤ s.getLen → s.getLen ≤ 1600 →
        (∀ m, IdlePaged 200 m → m.canAllocate s = true) ∧
        (∀ m, IdleVAttention 16 200 m → m.canAllocate s = true) := by
  have hinit : initCache [(300, 10000)] 1 1600 16 2 = .ok ⟨200, 200⟩ := by rfl
  exact ⟨hinit, (admissible_fits_idle_iff hinit).mpr (by decide)⟩

/-- One hundred blocks of sixteen tokens, for a model of 1600: a prompt of 1600 tokens is not
    ignored, but the watermark of one block keeps it waiting in an idle system. -/
theorem longest_prompt_never_fits :
    initCache [(100, 10000)] 1 1600 16 1 = .ok ⟨100, 100⟩ ∧
      ∃ s : Sequence, s.blockSize = 16 ∧ s.BlocksPacked ∧ s.getLen = 1600 ∧
        (∀ m, IdlePaged 100 m → m.canAllocate s = false) ∧
        (∀ m, IdleVAttention 16 100 m → m.canAllocate s = false) := by
  have hpacked := Sequence.blocksPacked_new 0 [] (List.replicate 1600 0) (show 0 < 16 by decide)
    none 0 {}
  have hlen : (Sequence.new 0 [] (List.replicate 1600 0) 16 none 0 {}).getLen = 1600 :=
    (Sequence.getLen_new ..).trans List.length_replicate
  have hfull : ¬ watermarkBlocks 100 + ceilDiv 1600 16 ≤ 100 := by decide
  refine ⟨by rfl, _, rfl, hpacked, hlen, fun m hm => ?_, fun m hm => ?_⟩
  · rw [← Bool.not_eq_true, hm.canAllocate_iff hpacked, hlen]
    exact hfull
  · rw [← Bool.not_eq_true, IdleVAttention.canAllocate_iff hm, hlen]
    exact hfull

/-! ## The oldest request -/

section Oldest

variable {β γ : Type} [BlockSpaceManager β] [CacheEngine γ]

end Oldest

end VAttention.Engine
