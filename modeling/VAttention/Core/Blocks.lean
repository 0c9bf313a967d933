import Mathlib.Algebra.Order.Floor.Div
import VAttention.Core.BlockManager

/-!
# Logical token blocks

A sequence keeps its tokens in logical blocks, prompt and generated tokens alike, and fills each
block before it opens the next.  So the number of its blocks is its length divided by the block
size, rounded up.  The paged managers count the logical blocks, the vAttention manager divides;
the two agree.
-/

namespace VAttention.Core

variable {blockSize n k : Nat} {blocks init : List (List TokenId)} {last tokenIds : List TokenId}

/-! ## Rounding up -/

theorem ceilDiv_le_iff (hblock : 0 < blockSize) : ceilDiv n blockSize ≤ k ↔ n ≤ k * blockSize := by
  rw [ceilDiv, ← Nat.ceilDiv_eq_add_pred_div, ceilDiv_le_iff_le_mul hblock, Nat.mul_comm]

theorem lt_ceilDiv_iff (hblock : 0 < blockSize) : k < ceilDiv n blockSize ↔ k * blockSize < n := by
  rw [← Nat.not_le, ceilDiv_le_iff hblock, Nat.not_le]

theorem le_ceilDiv_mul (hblock : 0 < blockSize) : n ≤ ceilDiv n blockSize * blockSize :=
  (ceilDiv_le_iff hblock).mp le_rfl

theorem ceilDiv_mono {m : Nat} (hblock : 0 < blockSize) (h : m ≤ n) :
    ceilDiv m blockSize ≤ ceilDiv n blockSize := by
  rw [ceilDiv_le_iff hblock]
  exact h.trans (le_ceilDiv_mul hblock)

/-! ## Packed blocks -/

/-- The blocks hold `n` tokens, and only the last one may have empty slots. -/
structure Packed (blockSize n : Nat) (blocks : List (List TokenId)) : Prop where
  length : blocks.length = ceilDiv n blockSize
  last : (blocks.length - 1) * blockSize + (blocks.getLastD []).length = n

theorem packed_nil (hblock : 0 < blockSize) : Packed blockSize 0 [] where
  length := by
    symm
    rw [List.length_nil, ← Nat.le_zero, ceilDiv_le_iff hblock]
    exact Nat.zero_le _
  last := by simp

/-- Seen from its last block. -/
theorem packed_concat_iff (hblock : 0 < blockSize) :
    Packed blockSize n (init ++ [last]) ↔
      init.length * blockSize + last.length = n ∧ 0 < last.length ∧ last.length ≤ blockSize := by
  have hfields : Packed blockSize n (init ++ [last]) ↔
      init.length + 1 = ceilDiv n blockSize ∧ init.length * blockSize + last.length = n :=
    ⟨fun h => ⟨by simpa using h.length, by simpa using h.last⟩,
      fun h => ⟨by simpa using h.1, by simpa using h.2⟩⟩
  rw [hfields]
  have hsucc : (init.length + 1) * blockSize = init.length * blockSize + blockSize :=
    Nat.succ_mul _ _
  constructor
  · rintro ⟨hlength, hsum⟩
    have hle := (ceilDiv_le_iff hblock).mp hlength.ge
    have hlt := (lt_ceilDiv_iff hblock).mp (show init.length < ceilDiv n blockSize by omega)
    omega
  · rintro ⟨hsum, hpos, hle⟩
    refine ⟨le_antisymm ?_ ?_, hsum⟩
    · exact (lt_ceilDiv_iff hblock).mpr (by omega)
    · exact (ceilDiv_le_iff hblock).mpr (by omega)

/-- Where the next tokens go: the last block, or a new one if there is none or it is full. -/
def openLastBlock (blockSize : Nat) (blocks : List (List TokenId)) : List (List TokenId) :=
  match blocks.getLast? with
  | none => [[]]
  | some last => if last.length = blockSize then blocks ++ [[]] else blocks

theorem length_openLastBlock_pos (blockSize : Nat) (blocks : List (List TokenId)) :
    0 < (openLastBlock blockSize blocks).length := by
  unfold openLastBlock
  split
  · exact Nat.one_pos
  · rename_i last hlast
    have hpos : 0 < blocks.length := List.length_pos_of_mem (List.mem_of_getLast? hlast)
    split_ifs
    · rw [List.length_append]
      omega
    · exact hpos

theorem length_openLastBlock_le (blockSize : Nat) (blocks : List (List TokenId)) :
    (openLastBlock blockSize blocks).length ≤ blocks.length + 1 := by
  unfold openLastBlock
  split
  · simp
  · split_ifs <;> simp

/-- The block that is open has an empty slot. -/
theorem Packed.exists_open (hblock : 0 < blockSize) (h : Packed blockSize n blocks) :
    ∃ init last, openLastBlock blockSize blocks = init ++ [last] ∧
      init.length * blockSize + last.length = n ∧ last.length < blockSize := by
  unfold openLastBlock
  rcases List.eq_nil_or_concat blocks with rfl | ⟨init, last, rfl⟩
  · have hzero := h.last
    refine ⟨[], [], rfl, ?_, hblock⟩
    simpa using hzero
  · rw [List.concat_eq_append] at h ⊢
    obtain ⟨hsum, -, hle⟩ := (packed_concat_iff hblock).mp h
    simp only [List.getLast?_append, List.getLast?_singleton, Option.some_or]
    split_ifs with hfull
    · refine ⟨init ++ [last], [], rfl, ?_, hblock⟩
      simp [Nat.succ_mul, ← hsum, hfull]
    · exact ⟨init, last, rfl, hsum, by omega⟩

/-- One iteration fills the open block as far as the tokens go. -/
theorem appendTokensLoop_succ {fuel : Nat} (hne : tokenIds ≠ [])
    (hopen : openLastBlock blockSize blocks = init ++ [last]) :
    appendTokensLoop blockSize (fuel + 1) blocks tokenIds =
      appendTokensLoop blockSize fuel
        (init ++ [last ++ tokenIds.take (blockSize - last.length)])
        (tokenIds.drop (blockSize - last.length)) := by
  have hunfold : appendTokensLoop blockSize (fuel + 1) blocks tokenIds =
      let opened := openLastBlock blockSize blocks
      let numEmptySlots := blockSize - (opened.getLastD []).length
      appendTokensLoop blockSize fuel
        (opened.dropLast ++ [opened.getLastD [] ++ tokenIds.take numEmptySlots])
        (tokenIds.drop numEmptySlots) :=
    if_neg (by simpa using hne)
  rw [hunfold, hopen]
  simp only [List.dropLast_concat, List.getLastD_concat]

/-- **Run lemma**: the loop stores all tokens, whatever the fill of the last block. -/
theorem Packed.loop (hblock : 0 < blockSize) {fuel : Nat} (hfuel : tokenIds.length ≤ fuel)
    (h : Packed blockSize n blocks) :
    Packed blockSize (n + tokenIds.length) (appendTokensLoop blockSize fuel blocks tokenIds) := by
  induction fuel generalizing n blocks tokenIds with
  | zero =>
    rw [Nat.le_zero.mp hfuel]
    exact h
  | succ fuel ih =>
    by_cases hne : tokenIds = []
    · subst hne
      exact h
    · obtain ⟨init, last, hopen, hsum, hlt⟩ := h.exists_open hblock
      have hpos : 0 < tokenIds.length := List.length_pos_iff.mpr hne
      have hnext : Packed blockSize (n + min (blockSize - last.length) tokenIds.length)
          (init ++ [last ++ tokenIds.take (blockSize - last.length)]) := by
        rw [packed_concat_iff hblock, List.length_append, List.length_take]
        omega
      have hfewer : (tokenIds.drop (blockSize - last.length)).length ≤ fuel := by
        rw [List.length_drop]
        omega
      have hrest := ih hfewer hnext
      rw [List.length_drop] at hrest
      rw [appendTokensLoop_succ hne hopen]
      convert hrest using 1
      omega

/-- `_append_tokens_to_blocks` keeps the blocks packed. -/
theorem Packed.append (hblock : 0 < blockSize) (h : Packed blockSize n blocks)
    (tokenIds : List TokenId) :
    Packed blockSize (n + tokenIds.length) (appendTokensToBlocks blockSize blocks tokenIds) :=
  h.loop hblock le_rfl

/-! ## The blocks of a sequence -/

/-- The logical blocks hold the tokens of the sequence. -/
def Sequence.BlocksPacked (s : Sequence) : Prop :=
  Packed s.blockSize s.getLen s.logicalTokenBlocks

theorem Sequence.getLen_new (seqId : SeqId) (prompt : Text) (promptTokenIds : List TokenId)
    (blockSize : Nat) (eosTokenId : Option TokenId) (arrivalTime : Time)
    (samplingParams : SamplingParams) :
    (Sequence.new seqId prompt promptTokenIds blockSize eosTokenId arrivalTime
      samplingParams).getLen = promptTokenIds.length :=
  Nat.zero_add _

theorem Sequence.blocksPacked_new (seqId : SeqId) (prompt : Text) (promptTokenIds : List TokenId)
    (hblock : 0 < blockSize) (eosTokenId : Option TokenId) (arrivalTime : Time)
    (samplingParams : SamplingParams) :
    (Sequence.new seqId prompt promptTokenIds blockSize eosTokenId arrivalTime
      samplingParams).BlocksPacked := by
  have hpacked := (packed_nil hblock).append hblock promptTokenIds
  rw [Nat.zero_add] at hpacked
  rw [BlocksPacked, Sequence.getLen_new]
  exact hpacked

theorem Sequence.BlocksPacked.length_eq {s : Sequence} (h : s.BlocksPacked) :
    s.logicalTokenBlocks.length = ceilDiv s.getLen s.blockSize :=
  h.length

end VAttention.Core
