import Mathlib.Data.List.AList
import VAttention.Core.Sequence

/-!
# Block space managers

The scheduler asks a block space manager whether a sequence fits before it schedules it.
There are two families: the paged managers keep a free list and a block table for each
sequence, and the vAttention manager only counts blocks, against the number of free blocks
that the workers report.  `BlockSpaceManager` is the interface the scheduler and the worker
use; the paged managers differ in two numbers and share one definition.
-/

namespace VAttention.Core

open VAttention.Lib

/-- The interface of a block space manager.  The last three operations are what the
    callers do only for the vAttention manager (`type(self.block_manager) == ...`). -/
class BlockSpaceManager (β : Type) where
  canAllocate : β → Sequence → Bool
  allocate : β → SeqId → Sequence → Except PyError β
  canAppendSlot : β → Sequence → Bool
  appendSlot : β → SeqId → Sequence → Except PyError β
  free : β → SeqId → Sequence → β
  isAllocated : β → SeqId → Bool
  setFreeBlocks : β → Nat → β
  clearPromisedBlocks : β → β
  /-- `preemption_queue.append(seq)`. -/
  enqueuePreempted : β → SeqId → β
  /-- Take the preemption queue out of the manager and leave an empty one. -/
  takePreemptionQueue : β → List SeqId × β

/-- `math.ceil(n / block_size)`. -/
def ceilDiv (n blockSize : Nat) : Nat := (n + blockSize - 1) / blockSize

/-- `int(0.01 * num_gpu_blocks)`. -/
def watermarkBlocks (numGpuBlocks : Nat) : Nat := numGpuBlocks / 100

/-! ## The vAttention manager -/

/-- `vAttentionBlockSpaceManager`.  `free_blocks` is set before every use. -/
structure VAttentionBlockManager where
  blockSize : Nat
  watermarkBlocks : Nat
  promisedBlocks : Nat := 0
  activeRequests : List SeqId := []
  preemptionQueue : List SeqId := []
  freeBlocks : Nat := 0
  deriving DecidableEq, Repr

namespace VAttentionBlockManager

/-- `vAttentionBlockSpaceManager.__init__`. -/
def new (blockSize numGpuBlocks : Nat) : VAttentionBlockManager where
  blockSize := blockSize
  watermarkBlocks := Core.watermarkBlocks numGpuBlocks

variable (m : VAttentionBlockManager)

/-- `get_num_blocks`. -/
def getNumBlocks (s : Sequence) : Nat := ceilDiv s.getLen m.blockSize

/-- Whether one more token needs a block the sequence does not have yet. -/
def crossesBlock (s : Sequence) : Bool :=
  ceilDiv s.getLen m.blockSize < ceilDiv (s.getLen + 1) m.blockSize

/-- `can_allocate`: `free - promised - required >= watermark`. -/
def canAllocate (s : Sequence) : Bool :=
  m.watermarkBlocks + m.getNumBlocks s + m.promisedBlocks ≤ m.freeBlocks

/-- `allocate`. -/
def allocate (id : SeqId) (s : Sequence) : VAttentionBlockManager :=
  { m with
    activeRequests := if id ∈ m.activeRequests then m.activeRequests else m.activeRequests ++ [id]
    promisedBlocks := m.promisedBlocks + m.getNumBlocks s }

/-- `can_append_slot`: a block is asked for only if the next token starts one. -/
def canAppendSlot (s : Sequence) : Bool :=
  !m.crossesBlock s || m.promisedBlocks < m.freeBlocks

/-- `append_slot`. -/
def appendSlot (s : Sequence) : VAttentionBlockManager :=
  if m.crossesBlock s then { m with promisedBlocks := m.promisedBlocks + 1 } else m

/-- `free`: the blocks are credited at once. -/
def free (id : SeqId) (s : Sequence) : VAttentionBlockManager :=
  if id ∈ m.activeRequests then
    { m with
      activeRequests := m.activeRequests.erase id
      freeBlocks := m.freeBlocks + m.getNumBlocks s }
  else m

instance : BlockSpaceManager VAttentionBlockManager where
  canAllocate := canAllocate
  allocate m id s := .ok (m.allocate id s)
  canAppendSlot := canAppendSlot
  appendSlot m _ s := .ok (m.appendSlot s)
  free := free
  isAllocated m id := decide (id ∈ m.activeRequests)
  setFreeBlocks m n := { m with freeBlocks := n }
  clearPromisedBlocks m := { m with promisedBlocks := 0 }
  enqueuePreempted m id := { m with preemptionQueue := m.preemptionQueue ++ [id] }
  takePreemptionQueue m := (m.preemptionQueue, { m with preemptionQueue := [] })

theorem appendSlot_eq (s : Sequence) : m.appendSlot s =
    { m with promisedBlocks := m.promisedBlocks + if m.crossesBlock s then 1 else 0 } := by
  unfold appendSlot
  split_ifs <;> rfl

/-- Freeing a sequence credits at most its blocks. -/
theorem free_eq (id : SeqId) (s : Sequence) : ∃ credited ≤ m.getNumBlocks s, ∃ active,
    m.free id s = { m with freeBlocks := m.freeBlocks + credited, activeRequests := active } := by
  unfold free
  split_ifs
  · exact ⟨_, le_rfl, _, rfl⟩
  · exact ⟨0, Nat.zero_le _, _, rfl⟩

theorem canAppendSlot_eq_false (s : Sequence) :
    m.canAppendSlot s = false ↔ m.crossesBlock s = true ∧ m.freeBlocks ≤ m.promisedBlocks := by
  simp [canAppendSlot]

end VAttentionBlockManager

/-! ## The paged managers -/

/-- `BaseBlockSpaceManager`.  `requestNumBlocks` is set for the Orca and FasterTransformer
    managers, which allocate the blocks of a whole context; the others allocate the blocks
    of the prompt. -/
structure PagedBlockManager where
  watermarkBlocks : Nat
  requestNumBlocks : Option Nat
  /-- `BlockAllocator.free_blocks`, the end of the Python list first. -/
  freeBlocks : List Nat
  blockTables : AList (fun _ : SeqId => List Nat)

namespace PagedBlockManager

/-- `VLLMBlockSpaceManager`, `SarathiBlockSpaceManager` and
    `SimpleChunkingBlockSpaceManager`. -/
def newVllm (numGpuBlocks : Nat) : PagedBlockManager where
  watermarkBlocks := Core.watermarkBlocks numGpuBlocks
  requestNumBlocks := none
  freeBlocks := (List.range numGpuBlocks).reverse
  blockTables := ∅

/-- `OrcaBlockSpaceManager` and `FasterTransformerBlockSpaceManager`. -/
def newOrca (blockSize numGpuBlocks maxModelLen : Nat) : PagedBlockManager where
  watermarkBlocks := 0
  requestNumBlocks := some (ceilDiv maxModelLen blockSize)
  freeBlocks := (List.range numGpuBlocks).reverse
  blockTables := ∅

variable (m : PagedBlockManager)

/-- `get_num_initial_blocks`. -/
def getNumInitialBlocks (s : Sequence) : Nat :=
  m.requestNumBlocks.getD s.logicalTokenBlocks.length

/-- `can_allocate`. -/
def canAllocate (s : Sequence) : Bool :=
  m.watermarkBlocks + m.getNumInitialBlocks s ≤ m.freeBlocks.length

/-- `BlockAllocator.allocate`, `n` times: the blocks taken and those left. -/
def takeBlocks : Nat → List Nat → Except PyError (List Nat × List Nat)
  | 0, free => .ok ([], free)
  | _ + 1, [] => .error (.valueError "Out of memory! No free blocks are available.")
  | n + 1, block :: free => do
    let (taken, left) ← takeBlocks n free
    pure (block :: taken, left)

/-- `allocate`. -/
def allocate (id : SeqId) (s : Sequence) : Except PyError PagedBlockManager := do
  let (table, left) ← takeBlocks (m.getNumInitialBlocks s) m.freeBlocks
  pure { m with freeBlocks := left, blockTables := m.blockTables.insert id table }

/-- `can_append_slot`: the sequence is not looked at. -/
def canAppendSlot : Bool := 0 < m.freeBlocks.length

/-- `append_slot`. -/
def appendSlot (id : SeqId) (s : Sequence) : Except PyError PagedBlockManager :=
  match m.blockTables.lookup id with
  | none => .error (.keyError id)
  | some table =>
    if table.length < s.logicalTokenBlocks.length then do
      let (taken, left) ← takeBlocks 1 m.freeBlocks
      pure { m with freeBlocks := left, blockTables := m.blockTables.insert id (table ++ taken) }
    else .ok m

/-- `free`: the blocks of the table go back to the free list, each once. -/
def free (id : SeqId) : PagedBlockManager :=
  match m.blockTables.lookup id with
  | none => m
  | some table =>
    { m with
      freeBlocks := table.dedup.reverse ++ m.freeBlocks
      blockTables := m.blockTables.erase id }

/-- `get_block_table`. -/
def getBlockTable (id : SeqId) : Except PyError (List Nat) :=
  match m.blockTables.lookup id with
  | none => .error (.keyError id)
  | some table => .ok table

instance : BlockSpaceManager PagedBlockManager where
  canAllocate := canAllocate
  allocate := allocate
  canAppendSlot m _ := m.canAppendSlot
  appendSlot := appendSlot
  free m id _ := m.free id
  isAllocated m id := (m.blockTables.lookup id).isSome
  setFreeBlocks m _ := m
  clearPromisedBlocks m := m
  enqueuePreempted m _ := m
  takePreemptionQueue m := ([], m)

end PagedBlockManager

end VAttention.Core
