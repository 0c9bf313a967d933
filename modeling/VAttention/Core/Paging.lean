import VAttention.Core.Blocks
import VAttention.Lib.Tables

/-!
# The blocks of a paged manager

A paged manager moves block numbers between its free list and the block tables.  No operation
creates, loses or duplicates one (`Partitions`), whether the tables cover the sequences or not.
A table *covers* a sequence if it has a block for each of its logical blocks, and *backs* it if at
most the block of its newest token is missing.
-/

namespace VAttention.Core

open VAttention.Lib

namespace PagedBlockManager

variable {m m' : PagedBlockManager} {numBlocks n : Nat} {id a : SeqId} {s : Sequence}
  {table : List Nat}

/-! ## The exceptions -/

/-- What `allocate` and `append_slot` can raise: no block is left, or no table exists. -/
def blockError : PyError → Bool
  | .valueError msg => msg = "Out of memory! No free blocks are available."
  | .keyError _ => true
  | _ => false

theorem takeBlocks_eq (n : Nat) (free : List Nat) :
    takeBlocks n free =
      if n ≤ free.length then .ok (free.take n, free.drop n)
      else .error (.valueError "Out of memory! No free blocks are available.") := by
  induction n generalizing free with
  | zero => simp [takeBlocks]
  | succ n ih =>
    cases free with
    | nil => simp [takeBlocks]
    | cons block free =>
      rw [takeBlocks, ih]
      by_cases h : n ≤ free.length
      · simp [h, Bind.bind, Except.bind, pure, Except.pure]
      · simp [h, Bind.bind, Except.bind]

theorem allocate_eq (m : PagedBlockManager) (id : SeqId) (s : Sequence) :
    m.allocate id s =
      if m.getNumInitialBlocks s ≤ m.freeBlocks.length then
        .ok { m with
          freeBlocks := m.freeBlocks.drop (m.getNumInitialBlocks s)
          blockTables :=
            m.blockTables.insert id (m.freeBlocks.take (m.getNumInitialBlocks s)) }
      else .error (.valueError "Out of memory! No free blocks are available.") := by
  rw [allocate, takeBlocks_eq]
  split_ifs <;> rfl

/-- `append_slot` for a sequence with a table: it takes a block if one is missing. -/
theorem appendSlot_eq (hlookup : m.blockTables.lookup id = some table) (s : Sequence) :
    m.appendSlot id s =
      if s.logicalTokenBlocks.length ≤ table.length then .ok m
      else match m.freeBlocks with
        | [] => .error (.valueError "Out of memory! No free blocks are available.")
        | block :: left => .ok { m with
            freeBlocks := left
            blockTables := m.blockTables.insert id (table ++ [block]) } := by
  unfold appendSlot
  rw [hlookup]
  by_cases h : s.logicalTokenBlocks.length ≤ table.length
  · simp [h, Nat.not_lt.mpr h]
  · cases hfree : m.freeBlocks with
    | nil => simp [h, Nat.lt_of_not_le h, takeBlocks, Bind.bind, Except.bind]
    | cons block left =>
      simp [h, Nat.lt_of_not_le h, takeBlocks, Bind.bind, Except.bind, pure, Except.pure]

theorem blockError_of_allocate {e : PyError} (h : m.allocate id s = .error e) :
    blockError e = true := by
  rw [allocate_eq] at h
  split_ifs at h
  cases h
  rfl

theorem blockError_of_appendSlot {e : PyError} (h : m.appendSlot id s = .error e) :
    blockError e = true := by
  cases hlookup : m.blockTables.lookup id with
  | none =>
    rw [appendSlot, hlookup] at h
    cases h
    rfl
  | some table =>
    rw [appendSlot_eq hlookup] at h
    split_ifs at h
    split at h
    · cases h
      rfl
    · cases h

/-! ## The partition -/

/-- The free list and the tables together hold every block number below `numBlocks` once, and no
    other. -/
def Partitions (numBlocks : Nat) (m : PagedBlockManager) : Prop :=
  (m.freeBlocks ++ heldItems m.blockTables).Perm (List.range numBlocks)

theorem partitions_newVllm (numBlocks : Nat) : Partitions numBlocks (newVllm numBlocks) := by
  have hheld : heldItems (newVllm numBlocks).blockTables = [] := rfl
  rw [Partitions, hheld, List.append_nil]
  exact List.reverse_perm _

theorem Partitions.nodup (h : Partitions numBlocks m) : (heldItems m.blockTables).Nodup :=
  (h.nodup_iff.mpr List.nodup_range).of_append_right

/-- Moving blocks between the free list and one table. -/
theorem Partitions.congr (h : Partitions numBlocks m)
    (hperm : (m'.freeBlocks ++ heldItems m'.blockTables).Perm
      (m.freeBlocks ++ heldItems m.blockTables)) : Partitions numBlocks m' :=
  hperm.trans h

theorem Partitions.allocate (h : Partitions numBlocks m) (hnew : id ∉ m.blockTables)
    (hallocate : m.allocate id s = .ok m') : Partitions numBlocks m' := by
  rw [allocate_eq] at hallocate
  split_ifs at hallocate
  cases hallocate
  apply h.congr
  dsimp only
  rw [heldItems_insert, heldItems_erase_of_notMem hnew]
  conv_rhs => rw [← List.take_append_drop (m.getNumInitialBlocks s) m.freeBlocks]
  rw [← List.append_assoc]
  exact List.perm_append_comm.append_right _

theorem Partitions.appendSlot (h : Partitions numBlocks m)
    (happend : m.appendSlot id s = .ok m') : Partitions numBlocks m' := by
  cases hlookup : m.blockTables.lookup id with
  | none =>
    rw [PagedBlockManager.appendSlot, hlookup] at happend
    cases happend
  | some table =>
    rw [appendSlot_eq hlookup] at happend
    split_ifs at happend
    · cases happend
      exact h
    · split at happend
      · cases happend
      · rename_i block left hfree
        cases happend
        apply h.congr
        have hgrown := heldItems_insert_append_perm hlookup [block]
        rw [hfree, List.cons_append]
        exact (hgrown.append_left left).trans List.perm_middle

theorem free_eq (hlookup : m.blockTables.lookup id = some table) :
    m.free id = { m with
      freeBlocks := table.dedup.reverse ++ m.freeBlocks
      blockTables := m.blockTables.erase id } := by
  rw [free, hlookup]

theorem free_of_notMem (h : id ∉ m.blockTables) : m.free id = m := by
  rw [free, AList.lookup_eq_none.mpr h]

/-- `set(block_table)` loses nothing, as a table has no duplicates. -/
theorem Partitions.free (h : Partitions numBlocks m) (id : SeqId) :
    Partitions numBlocks (m.free id) := by
  cases hlookup : m.blockTables.lookup id with
  | none => rwa [free_of_notMem (AList.lookup_eq_none.mp hlookup)]
  | some table =>
    rw [free_eq hlookup, List.dedup_eq_self.mpr (nodup_of_lookup h.nodup hlookup)]
    apply h.congr
    have hsplit := heldItems_perm_of_lookup hlookup
    calc List.Perm _ (table ++ m.freeBlocks ++ heldItems (m.blockTables.erase id)) :=
          ((List.reverse_perm table).append_right _).append_right _
      List.Perm _ (m.freeBlocks ++ table ++ heldItems (m.blockTables.erase id)) :=
          List.perm_append_comm.append_right _
      List.Perm _ (m.freeBlocks ++ heldItems m.blockTables) := by
          rw [List.append_assoc]
          exact hsplit.symm.append_left _

/-! ## Which tables exist -/

theorem requestNumBlocks_free (m : PagedBlockManager) (id : SeqId) :
    (m.free id).requestNumBlocks = m.requestNumBlocks := by
  unfold free
  split <;> rfl

theorem mem_free : a ∈ (m.free id).blockTables ↔ a ≠ id ∧ a ∈ m.blockTables := by
  cases hlookup : m.blockTables.lookup id with
  | none =>
    have hnot := AList.lookup_eq_none.mp hlookup
    rw [free_of_notMem hnot]
    exact ⟨fun ha => ⟨ne_of_mem_of_not_mem ha hnot, ha⟩, And.right⟩
  | some table =>
    rw [free_eq hlookup]
    exact AList.mem_erase

theorem lookup_free_of_ne (hne : a ≠ id) :
    (m.free id).blockTables.lookup a = m.blockTables.lookup a := by
  cases hlookup : m.blockTables.lookup id with
  | none => rw [free_of_notMem (AList.lookup_eq_none.mp hlookup)]
  | some table =>
    rw [free_eq hlookup]
    exact AList.lookup_erase_ne hne

/-- Freeing one sequence after the other. -/
theorem foldl_free (h : Partitions numBlocks m) (l : List SeqId) :
    Partitions numBlocks (l.foldl free m) ∧
      (l.foldl free m).requestNumBlocks = m.requestNumBlocks ∧
      (∀ a, a ∈ (l.foldl free m).blockTables ↔ a ∉ l ∧ a ∈ m.blockTables) ∧
      ∀ a, a ∉ l → (l.foldl free m).blockTables.lookup a = m.blockTables.lookup a := by
  induction l generalizing m with
  | nil => exact ⟨h, rfl, fun a => by simp, fun _ _ => rfl⟩
  | cons id l ih =>
    obtain ⟨hpartition, hrequest, hmem, hlookup⟩ := ih (h.free id)
    refine ⟨hpartition, hrequest.trans (requestNumBlocks_free m id), fun a => ?_, fun a ha => ?_⟩
    · rw [List.foldl_cons, hmem, mem_free, List.mem_cons]
      tauto
    · rw [List.mem_cons, not_or] at ha
      rw [List.foldl_cons, hlookup a ha.2, lookup_free_of_ne ha.1]

/-! ## Tables and sequences -/

/-- The table has a block for every logical block. -/
def Covers (table : List Nat) (s : Sequence) : Prop :=
  s.logicalTokenBlocks.length ≤ table.length

/-- The table misses at most one block, and none before the prompt is processed. -/
def Backs (table : List Nat) (s : Sequence) : Prop :=
  s.logicalTokenBlocks.length ≤ table.length + if s.promptProcessingFinished then 1 else 0

theorem Covers.backs (h : Covers table s) : Backs table s :=
  h.trans (Nat.le_add_right _ _)

theorem Backs.covers (h : Backs table s) (hprompt : s.promptProcessingFinished = false) :
    Covers table s := by
  simpa [Backs, Covers, hprompt] using h

/-- A table that covers a sequence has a slot for each of its tokens. -/
theorem Covers.getLen_le (h : Covers table s) (hblock : 0 < s.blockSize)
    (hpacked : s.BlocksPacked) : s.getLen ≤ table.length * s.blockSize := by
  rw [← ceilDiv_le_iff hblock, ← hpacked.length_eq]
  exact h

/-- The operation gave `id` the table and left the others alone. -/
structure SetsTable (id : SeqId) (table : List Nat) (m m' : PagedBlockManager) : Prop where
  requestNumBlocks : m'.requestNumBlocks = m.requestNumBlocks
  self : m'.blockTables.lookup id = some table
  other : ∀ a, a ≠ id → m'.blockTables.lookup a = m.blockTables.lookup a

theorem SetsTable.mem_iff (h : SetsTable id table m m') :
    a ∈ m'.blockTables ↔ a = id ∨ a ∈ m.blockTables := by
  by_cases ha : a = id
  · simp [← AList.lookup_isSome, ha, h.self]
  · simp [← AList.lookup_isSome, ha, h.other a ha]

/-- A first table covers the sequence. -/
theorem allocate_setsTable (hprompt : m.requestNumBlocks = none) (h : m.allocate id s = .ok m') :
    ∃ table, SetsTable id table m m' ∧ Covers table s := by
  have hnum : m.getNumInitialBlocks s = s.logicalTokenBlocks.length := by
    rw [getNumInitialBlocks, hprompt, Option.getD_none]
  rw [allocate_eq] at h
  split_ifs at h with hroom
  cases h
  refine ⟨_, ⟨rfl, AList.lookup_insert _, fun a ha => AList.lookup_insert_ne ha⟩, ?_⟩
  rw [Covers, List.length_take, hnum]
  omega

/-- A table that backs the sequence is made to cover it. -/
theorem appendSlot_setsTable (hlookup : m.blockTables.lookup id = some table)
    (hbacks : Backs table s) (h : m.appendSlot id s = .ok m') :
    ∃ table', SetsTable id table' m m' ∧ Covers table' s := by
  rw [appendSlot_eq hlookup] at h
  split_ifs at h with hcovers
  · cases h
    exact ⟨table, ⟨rfl, hlookup, fun _ _ => rfl⟩, hcovers⟩
  · split at h
    · cases h
    · rename_i block left hfree
      cases h
      refine ⟨_, ⟨rfl, AList.lookup_insert _, fun a ha => AList.lookup_insert_ne ha⟩, ?_⟩
      simp only [Backs] at hbacks
      simp only [Covers, List.length_append, List.length_singleton]
      split_ifs at hbacks <;> omega

/-! ## The guards -/

/-- `allocate` does not raise after `can_allocate`. -/
theorem exists_allocate (hcan : m.canAllocate s = true) (id : SeqId) :
    ∃ m', m.allocate id s = .ok m' := by
  have hroom : m.getNumInitialBlocks s ≤ m.freeBlocks.length := by
    simp only [canAllocate, decide_eq_true_eq] at hcan
    omega
  exact ⟨_, (allocate_eq m id s).trans (if_pos hroom)⟩

/-- `append_slot` does not raise after `can_append_slot`, for a sequence with a table. -/
theorem exists_appendSlot (hmem : id ∈ m.blockTables) (hcan : m.canAppendSlot = true)
    (s : Sequence) : ∃ m', m.appendSlot id s = .ok m' := by
  rw [← AList.lookup_isSome, Option.isSome_iff_exists] at hmem
  obtain ⟨table, hlookup⟩ := hmem
  obtain ⟨block, left, hfree⟩ : ∃ block left, m.freeBlocks = block :: left :=
    List.exists_cons_of_length_pos (of_decide_eq_true hcan)
  rw [appendSlot_eq hlookup, hfree]
  split_ifs
  · exact ⟨m, rfl⟩
  · exact ⟨_, rfl⟩

end PagedBlockManager

end VAttention.Core
