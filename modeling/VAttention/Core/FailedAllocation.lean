import VAttention.Core.Paging
import VAttention.Lib.Outcome

/-!
# What a failed allocation leaves behind

`BaseBlockSpaceManager.allocate` takes its blocks one at a time and registers the table last.  The
worker calls it without asking `can_allocate`, so it may find the free list empty halfway.  The
blocks taken so far are then in a local list only: the exception does not put them back.

`allocateInPlace` is the method as a change of the manager, with the state at the exception.
`allocate`, which the rest of the development uses, is its result without that state.
-/

namespace VAttention.Core

open VAttention.Lib

namespace PagedBlockManager

variable {m m' : PagedBlockManager} {id : SeqId} {s : Sequence}

/-! ## The method in place -/

/-- The manager and the local `block_table` of `allocate`. -/
structure AllocateState where
  manager : PagedBlockManager
  blockTable : List Nat

/-- One turn of the loop of `allocate`: `BlockAllocator.allocate`, and the block is appended. -/
def allocateTurn (a : AllocateState) : Outcome PyError AllocateState :=
  match a.manager.freeBlocks with
  | [] => .throw (.valueError "Out of memory! No free blocks are available.") a
  | block :: free =>
    .done {
      manager := { a.manager with freeBlocks := free }
      blockTable := a.blockTable ++ [block] }

/-- `self.block_tables[seq.seq_id] = block_table`. -/
def registerTable (id : SeqId) (a : AllocateState) : AllocateState :=
  { a with manager :=
      { a.manager with blockTables := a.manager.blockTables.insert id a.blockTable } }

/-- `BaseBlockSpaceManager.allocate`, with the manager it leaves behind on both exits. -/
def allocateInPlace (m : PagedBlockManager) (id : SeqId) (s : Sequence) :
    Outcome PyError PagedBlockManager :=
  ((Outcome.forEach (fun _ : Nat => allocateTurn) (List.range (m.getNumInitialBlocks s))
      { manager := m, blockTable := [] }).andThen
    fun a => .done (registerTable id a)).map AllocateState.manager

/-- **Run lemma** of the loop: it takes a block for each turn, or all there are. -/
theorem forEach_allocateTurn (l : List Nat) (a : AllocateState) :
    Outcome.forEach (fun _ => allocateTurn) l a =
      if l.length ≤ a.manager.freeBlocks.length then
        .done
          { manager := { a.manager with freeBlocks := a.manager.freeBlocks.drop l.length }
            blockTable := a.blockTable ++ a.manager.freeBlocks.take l.length }
      else
        .throw (.valueError "Out of memory! No free blocks are available.")
          { manager := { a.manager with freeBlocks := [] }
            blockTable := a.blockTable ++ a.manager.freeBlocks } := by
  induction l generalizing a with
  | nil => simp
  | cons i l ih =>
    obtain ⟨⟨watermarkBlocks, requestNumBlocks, freeBlocks, blockTables⟩, blockTable⟩ := a
    cases freeBlocks with
    | nil => simp [allocateTurn]
    | cons block free =>
      rw [Outcome.forEach_cons]
      simp only [allocateTurn, Outcome.andThen_done, ih]
      simp

/-- **What the method does**: with too few free blocks it raises and leaves an empty free list. -/
theorem allocateInPlace_eq (m : PagedBlockManager) (id : SeqId) (s : Sequence) :
    m.allocateInPlace id s =
      if m.getNumInitialBlocks s ≤ m.freeBlocks.length then
        .done { m with
          freeBlocks := m.freeBlocks.drop (m.getNumInitialBlocks s)
          blockTables :=
            m.blockTables.insert id (m.freeBlocks.take (m.getNumInitialBlocks s)) }
      else
        .throw (.valueError "Out of memory! No free blocks are available.")
          { m with freeBlocks := [] } := by
  rw [allocateInPlace, forEach_allocateTurn]
  simp only [List.length_range, List.nil_append]
  split_ifs <;> rfl

/-- **Connection**: `allocate` is the method in place without the state at an exception. -/
theorem allocate_eq_ok_iff :
    m.allocate id s = .ok m' ↔ m.allocateInPlace id s = .done m' := by
  rw [allocate_eq, allocateInPlace_eq]
  split_ifs <;> simp

theorem allocate_eq_error_iff {e : PyError} :
    m.allocate id s = .error e ↔ ∃ m', m.allocateInPlace id s = .throw e m' := by
  rw [allocate_eq, allocateInPlace_eq]
  split_ifs <;> simp

/-! ## Failure atomicity -/

/-- The block number is free or in a table. -/
def Accounts (m : PagedBlockManager) (block : Nat) : Prop :=
  block ∈ m.freeBlocks ∨ block ∈ heldItems m.blockTables

/-- An `allocate` that raises leaves the free list and the tables as they were, so that they hold
    the same block numbers. -/
def FailureAtomic (m : PagedBlockManager) (id : SeqId) (s : Sequence) : Prop :=
  ∀ e m', m.allocateInPlace id s = .throw e m' →
    m'.freeBlocks = m.freeBlocks ∧ m'.blockTables = m.blockTables ∧
      ∀ block, m.Accounts block → m'.Accounts block

/-- **When allocation is failure-atomic**: in every state and for every sequence, exactly if there
    are enough free blocks or none at all. -/
theorem failure_atomic_iff (m : PagedBlockManager) (id : SeqId) (s : Sequence) :
    FailureAtomic m id s ↔
      m.getNumInitialBlocks s ≤ m.freeBlocks.length ∨ m.freeBlocks = [] := by
  unfold FailureAtomic
  rw [allocateInPlace_eq]
  split_ifs with henough
  · simp [henough]
  constructor
  · intro hatomic
    obtain ⟨hfree, -⟩ := hatomic _ _ rfl
    exact .inr hfree.symm
  · rintro (henough' | hempty) e m' hthrow
    · exact absurd henough' henough
    · cases hthrow
      refine ⟨hempty.symm, rfl, fun block hblock => ?_⟩
      unfold Accounts at hblock ⊢
      rwa [hempty] at hblock

/-- A prompt of three blocks, for a manager with two. -/
def threeBlockPrompt : Sequence := .new 0 [] [1, 2, 3, 4, 5] 2 none 0 { maxTokens := 1 }

/-- The exception leaves a manager without any block. -/
theorem threeBlockPrompt_loses_blocks :
    (∃ m', (newVllm 2).allocateInPlace 0 threeBlockPrompt =
        .throw (.valueError "Out of memory! No free blocks are available.") m' ∧
      (newVllm 2).Accounts 0 ∧ ¬ m'.Accounts 0) ∧
      ¬ FailureAtomic (newVllm 2) 0 threeBlockPrompt := by
  obtain ⟨m', hthrow, hfree, htables⟩ : ∃ m', (newVllm 2).allocateInPlace 0 threeBlockPrompt =
      .throw (.valueError "Out of memory! No free blocks are available.") m' ∧
      m'.freeBlocks = [] ∧ heldItems m'.blockTables = [] := ⟨_, rfl, rfl, rfl⟩
  have hbefore : (newVllm 2).Accounts 0 := .inl (by decide)
  have hafter : ¬ m'.Accounts 0 := by
    unfold Accounts
    rw [hfree, htables]
    simp
  refine ⟨⟨m', hthrow, hbefore, hafter⟩, fun hatomic => ?_⟩
  obtain ⟨-, -, haccounts⟩ := hatomic _ m' hthrow
  exact hafter (haccounts 0 hbefore)

end PagedBlockManager

end VAttention.Core
