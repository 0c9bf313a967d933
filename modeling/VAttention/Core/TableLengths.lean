import VAttention.Core.Paging

/-!
# Lengths of block tables

Which block numbers a manager hands out depends on the order of the calls; how many blocks each
sequence has does not.  So two managers are compared by the lengths of their tables.  The effect
of a whole scheduling round on the lengths is one function of the scheduler's outputs (`replayed`),
and the number of free blocks follows from the lengths.
-/

namespace VAttention.Core

open VAttention.Lib

namespace PagedBlockManager

variable {m m' : PagedBlockManager} {numBlocks n : Nat} {id a : SeqId} {s : Sequence}
  {table : List Nat}

/-- The number of blocks of a sequence that has a table. -/
def tableLength (m : PagedBlockManager) (id : SeqId) : Option Nat :=
  (m.blockTables.lookup id).map List.length

theorem tableLength_eq_none : m.tableLength id = none ↔ id ∉ m.blockTables := by
  rw [tableLength, Option.map_eq_none_iff, AList.lookup_eq_none]

theorem tableLength_eq_some :
    m.tableLength id = some n ↔ ∃ table, m.blockTables.lookup id = some table ∧ table.length = n :=
  Option.map_eq_some_iff

/-! ## The operations -/

theorem tableLength_free (m : PagedBlockManager) (id : SeqId) :
    (m.free id).tableLength = Function.update m.tableLength id none := by
  funext a
  by_cases ha : a = id
  · subst ha
    rw [Function.update_self, tableLength_eq_none, mem_free]
    exact fun h => h.1 rfl
  · rw [Function.update_of_ne ha, tableLength, lookup_free_of_ne ha, tableLength]

/-- Freeing one sequence after the other. -/
theorem tableLength_foldl_free (l : List SeqId) (m : PagedBlockManager) (a : SeqId) :
    (l.foldl free m).tableLength a = if a ∈ l then none else m.tableLength a := by
  induction l generalizing m with
  | nil => simp
  | cons id l ih =>
    rw [List.foldl_cons, ih, tableLength_free]
    by_cases ha : a = id
    · simp [ha]
    · simp [ha]

theorem tableLength_insert (m : PagedBlockManager) (free : List Nat) (id : SeqId)
    (table : List Nat) :
    ({ m with freeBlocks := free, blockTables := m.blockTables.insert id table } :
      PagedBlockManager).tableLength = Function.update m.tableLength id (some table.length) := by
  funext a
  by_cases ha : a = id
  · subst ha
    simp [tableLength]
  · simp [tableLength, ha]

/-- A first table has a block for every logical block. -/
theorem tableLength_allocate (hprompt : m.requestNumBlocks = none)
    (h : m.allocate id s = .ok m') :
    m'.tableLength = Function.update m.tableLength id (some s.logicalTokenBlocks.length) := by
  have hnum : m.getNumInitialBlocks s = s.logicalTokenBlocks.length := by
    rw [getNumInitialBlocks, hprompt, Option.getD_none]
  rw [allocate_eq] at h
  split_ifs at h with hroom
  cases h
  rw [tableLength_insert, List.length_take, Nat.min_eq_left hroom, hnum]

/-- A table that is too short grows by one block. -/
theorem tableLength_appendSlot (h : m.appendSlot id s = .ok m') :
    ∃ n, m.tableLength id = some n ∧ m'.tableLength = Function.update m.tableLength id
      (some (if s.logicalTokenBlocks.length ≤ n then n else n + 1)) := by
  cases hlookup : m.blockTables.lookup id with
  | none =>
    rw [appendSlot, hlookup] at h
    cases h
  | some table =>
    have hlength : m.tableLength id = some table.length := by rw [tableLength, hlookup]; rfl
    refine ⟨table.length, hlength, ?_⟩
    rw [appendSlot_eq hlookup] at h
    split_ifs at h ⊢
    · cases h
      rw [← hlength, Function.update_eq_self]
    · split at h
      · cases h
      · cases h
        rw [tableLength_insert, List.length_append, List.length_singleton]

theorem requestNumBlocks_allocate (h : m.allocate id s = .ok m') :
    m'.requestNumBlocks = m.requestNumBlocks := by
  rw [allocate_eq] at h
  split_ifs at h
  cases h
  rfl

theorem requestNumBlocks_appendSlot (h : m.appendSlot id s = .ok m') :
    m'.requestNumBlocks = m.requestNumBlocks := by
  cases hlookup : m.blockTables.lookup id with
  | none =>
    rw [appendSlot, hlookup] at h
    cases h
  | some table =>
    rw [appendSlot_eq hlookup] at h
    split_ifs at h
    · cases h
      rfl
    · split at h <;> cases h
      rfl

/-! ## The free blocks -/

theorem Partitions.length_add (h : Partitions numBlocks m) :
    m.freeBlocks.length + (heldItems m.blockTables).length = numBlocks := by
  have hlen := List.Perm.length_eq h
  rwa [List.length_append, List.length_range] at hlen

theorem length_heldItems_erase (m : PagedBlockManager) (id : SeqId) :
    (heldItems m.blockTables).length =
      (m.tableLength id).getD 0 + (heldItems (m.blockTables.erase id)).length := by
  cases hlookup : m.blockTables.lookup id with
  | none =>
    rw [heldItems_erase_of_notMem (AList.lookup_eq_none.mp hlookup), tableLength, hlookup]
    simp
  | some table =>
    rw [(heldItems_perm_of_lookup hlookup).length_eq, List.length_append, tableLength, hlookup]
    rfl

/-- **Room**: if the other tables are no longer than those of a manager with as many blocks, then
    there are enough free blocks for a table of the length that `id` has there. -/
theorem Partitions.room (h : Partitions numBlocks m) (h' : Partitions numBlocks m')
    (hle : ∀ a, a ≠ id → ∀ k, m.tableLength a = some k → ∃ k', m'.tableLength a = some k' ∧ k ≤ k')
    (hid : m'.tableLength id = some n) :
    n ≤ (m.tableLength id).getD 0 + m.freeBlocks.length := by
  obtain ⟨table, hlookup, rfl⟩ := tableLength_eq_some.mp hid
  -- the tables of `m`, with that of `id` replaced
  have hheld : (heldItems (m.blockTables.insert id table)).length ≤
      (heldItems m'.blockTables).length := by
    refine length_heldItems_le fun a items ha => ?_
    by_cases hne : a = id
    · subst hne
      rw [AList.lookup_insert] at ha
      cases ha
      exact ⟨table, hlookup, le_rfl⟩
    · rw [AList.lookup_insert_ne hne] at ha
      obtain ⟨k', hk', hlen⟩ := hle a hne items.length (tableLength_eq_some.mpr ⟨items, ha, rfl⟩)
      obtain ⟨others, hothers, rfl⟩ := tableLength_eq_some.mp hk'
      exact ⟨others, hothers, hlen⟩
  rw [heldItems_insert, List.length_append] at hheld
  have hm := h.length_add
  rw [length_heldItems_erase m id] at hm
  have hm' := h'.length_add
  omega

/-! ## Managers in step -/

/-- Two managers have tables for the same sequences, of the same lengths, and as many free
    blocks. -/
structure InSync (m m' : PagedBlockManager) : Prop where
  tables : ∀ id, m.tableLength id = m'.tableLength id
  freeBlocks : m.freeBlocks.length = m'.freeBlocks.length

/-- The lengths of the tables decide how many blocks are free. -/
theorem Partitions.inSync (h : Partitions numBlocks m) (h' : Partitions numBlocks m')
    (htables : ∀ id, m.tableLength id = m'.tableLength id) : InSync m m' := by
  refine ⟨htables, ?_⟩
  have hle : ∀ {m m' : PagedBlockManager}, (∀ id, m.tableLength id = m'.tableLength id) →
      (heldItems m.blockTables).length ≤ (heldItems m'.blockTables).length := by
    intro m m' htables
    refine length_heldItems_le fun a items ha => ?_
    have hlen : m'.tableLength a = some items.length := by
      rw [← htables]
      exact tableLength_eq_some.mpr ⟨items, ha, rfl⟩
    obtain ⟨others, hothers, heq⟩ := tableLength_eq_some.mp hlen
    exact ⟨others, hothers, heq.ge⟩
  have heq := Nat.le_antisymm (hle htables) (hle fun id => (htables id).symm)
  have hm := h.length_add
  have hm' := h'.length_add
  omega

end PagedBlockManager

/-! ## The effect of a round -/

/-- The lengths of the tables after a scheduling round: dropped and evicted sequences lose their
    tables, and then the table of each entry of the batch reaches its logical blocks. -/
def replayed (out : SchedulerOutputs) (blocks : SeqId → Nat) (lengths : SeqId → Option Nat)
    (id : SeqId) : Option Nat :=
  let left :=
    if id ∈ out.ignoredSeqIds ∨ id ∈ out.preemptedSeqIds then none else lengths id
  if id ∈ out.batchIds then some (max (left.getD 0) (blocks id)) else left

theorem replayed_congr {out : SchedulerOutputs} {blocks blocks' : SeqId → Nat}
    {lengths lengths' : SeqId → Option Nat} (hblocks : ∀ id ∈ out.batchIds, blocks id = blocks' id)
    (hlengths : ∀ id, lengths id = lengths' id) (id : SeqId) :
    replayed out blocks lengths id = replayed out blocks' lengths' id := by
  unfold replayed
  rw [hlengths id]
  by_cases hbatch : id ∈ out.batchIds
  · rw [hblocks id hbatch]
  · simp only [if_neg hbatch]

/-- In the middle of a round no table is longer than at its end. -/
theorem replayed_le {out : SchedulerOutputs} {done : List SequenceScheduleMetadata}
    {blocks : SeqId → Nat} {lengths : SeqId → Option Nat} {id : SeqId} {n : Nat}
    (hdone : ∀ id ∈ scheduledIds done, id ∈ out.batchIds)
    (h : replayed { out with scheduledSeqMetadataList := done } blocks lengths id = some n) :
    ∃ n', replayed out blocks lengths id = some n' ∧ n ≤ n' := by
  unfold replayed at h ⊢
  dsimp only at h ⊢
  by_cases hid' : id ∈ scheduledIds done
  · rw [if_pos hid'] at h
    rw [if_pos (hdone id hid')]
    exact ⟨n, h, le_rfl⟩
  · rw [if_neg hid'] at h
    rw [h]
    by_cases hid : id ∈ out.batchIds
    · rw [if_pos hid]
      exact ⟨_, rfl, le_max_left _ _⟩
    · rw [if_neg hid]
      exact ⟨n, rfl, le_rfl⟩

end VAttention.Core
