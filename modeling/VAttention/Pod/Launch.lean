import Mathlib

/-!
# Launching the fused prefill/decode kernel

The host side of POD-attention: which instantiation of the kernel is launched for which
parameters (`run_true_fused_mha_fwd`, `run_true_fused_mha_fwd_hdim128`), with how many thread
blocks (`run_true_fused_fwd`), and how a thread block turns the linear block id it was given
into the tile it computes (`compute_fused_tb_attn`).

A tile is one row block of queries of one head of one batch entry, and with split keys one of
the splits.  `TrueFused.tile_eq_some_iff`: the ids below the number of blocks are exactly the
tiles, one id each, provided a side that decodes splits is also launched with them.
-/

namespace VAttention.Pod

/-! ## Kernel traits and parameters -/

/-- What a thread block works on. -/
inductive Op where
  | prefill
  | decode
  deriving DecidableEq, Repr

/-- The value of `op` in the kernel. -/
def Op.index : Op → Nat
  | .prefill => 0
  | .decode => 1

/-- `!op` -/
def Op.other : Op → Op
  | .prefill => .decode
  | .decode => .prefill

theorem Op.other_involutive : Function.Involutive Op.other := by
  intro op
  cases op <;> rfl

theorem Op.eq_or_eq_other (op op' : Op) : op' = op ∨ op' = op.other := by
  cases op <;> cases op' <;> simp [Op.other]

/-- Tile sizes and warps of one kernel (`Flash_fwd_kernel_traits`).  One of the two tile sizes
    divides the other in every instantiation, which the number of masking steps relies on. -/
structure KernelTraits where
  kBlockM : Nat
  kBlockN : Nat
  kNWarps : Nat
  pos : 0 < kBlockM ∧ 0 < kBlockN ∧ 0 < kNWarps
  nested : kBlockM ∣ kBlockN ∨ kBlockN ∣ kBlockM

def KernelTraits.kNThreads (t : KernelTraits) : Nat := t.kNWarps * 32

theorem KernelTraits.kNThreads_pos (t : KernelTraits) : 0 < t.kNThreads :=
  Nat.mul_pos t.pos.2.2 (by decide)

def traits128x64 : KernelTraits := ⟨128, 64, 4, by decide, by decide⟩
def traits64x128 : KernelTraits := ⟨64, 128, 4, by decide, by decide⟩
def traits64x32 : KernelTraits := ⟨64, 32, 2, by decide, by decide⟩
def traits32x64 : KernelTraits := ⟨32, 64, 2, by decide, by decide⟩
def traits16x32 : KernelTraits := ⟨16, 32, 1, by decide, by decide⟩

/-- What the launch reads of `Flash_fwd_params`: sizes, splits, and which optional inputs are
    present.  `setup` checks the batch size, and `num_splits` is at least one when it returns. -/
structure FlashFwdParams where
  b : Nat
  h : Nat
  seqlenQ : Nat
  seqlenK : Nat
  numSplits : Nat
  /-- `block_table != nullptr` -/
  blockTable : Bool
  /-- `knew_ptr != nullptr` -/
  knew : Bool
  /-- `cache_batch_idx != nullptr` -/
  cacheBatchIdx : Bool
  pos : 0 < b ∧ 0 < h ∧ 0 < seqlenQ ∧ 0 < numSplits

/-! ## Choosing the instantiation -/

/-- One instantiation of `run_true_fused_fwd` with its arguments. -/
structure TrueFused where
  prefillTraits : KernelTraits
  decodeTraits : KernelTraits
  fusedOp : Nat
  decodeIsSplit : Bool
  prefillIsSplit : Bool
  prefillParams : FlashFwdParams
  decodeParams : FlashFwdParams

/-- `run_true_fused_mha_fwd_hdim128`.  Operation 64 runs other kernels (`run_hfused_fwd`). -/
def runTrueFusedMhaFwdHdim128 (fusedOp : Nat) (decodeSplit : Bool) (pp pd : FlashFwdParams) :
    Option TrueFused :=
  if fusedOp = 64 then none
  else if fusedOp &&& 8 ≠ 0 then
    let traitsD := if decodeSplit then traits64x128 else traits16x32
    if 1 < pp.numSplits then
      some ⟨traits64x128, traitsD, fusedOp, decodeSplit, true, pp, pd⟩
    else if fusedOp &&& 2 ≠ 0 then
      some ⟨traits64x32, traitsD, fusedOp, decodeSplit, false, pp, pd⟩
    else if fusedOp &&& 4 ≠ 0 then
      some ⟨traits16x32, traitsD, fusedOp, decodeSplit, false, pp, pd⟩
    else
      some ⟨traits128x64, traitsD, fusedOp, decodeSplit, false, pp, pd⟩
  else if fusedOp &&& 2 ≠ 0 then
    some ⟨traits64x32, traits32x64, fusedOp, decodeSplit, false, pp, pd⟩
  else if fusedOp &&& 4 ≠ 0 then
    some ⟨traits16x32, traits16x32, fusedOp, decodeSplit, false, pp, pd⟩
  else
    some ⟨traits128x64, traits64x128, fusedOp, decodeSplit, false, pp, pd⟩

/-- The operation `run_true_fused_mha_fwd` picks for `fused_params == 15`. -/
def autoFusedOp (multiProcessorCount : Nat) (pp pd : FlashFwdParams) : Nat :=
  let dimP := if 1 < pp.numSplits then 64 else 128
  let prefillWork := pp.b * pp.h * ((pp.seqlenQ + dimP - 1) / dimP) * pp.numSplits
  let decodeWork := pd.b * pd.h * ((pd.seqlenQ + 64) / 64) * pd.numSplits
  if 1 < pp.numSplits ∨ 1 < pd.numSplits then 9
  else if prefillWork < multiProcessorCount * 2 ∧ decodeWork < multiProcessorCount * 3 then 11
  else if prefillWork < multiProcessorCount * 2 ∧ pd.seqlenK * 5 ≤ pp.seqlenK * 8 then 9
  else if multiProcessorCount * 2 ≤ prefillWork ∧ decodeWork < multiProcessorCount * 2 ∧
      pd.seqlenK * 5 ≤ pp.seqlenK * 8 then 11
  else if prefillWork ≤ decodeWork then 11
  else 9

/-- `run_true_fused_mha_fwd` -/
def runTrueFusedMhaFwd (multiProcessorCount fusedParams : Nat) (pp pd : FlashFwdParams) :
    Option TrueFused :=
  let decodeSplit := decide (1 < pd.numSplits)
  if fusedParams = 15 then
    runTrueFusedMhaFwdHdim128 (autoFusedOp multiProcessorCount pp pd) decodeSplit pp pd
  else if fusedParams ∈ [9, 8, 10, 11, 64] then
    runTrueFusedMhaFwdHdim128 fusedParams decodeSplit pp pd
  else none

namespace TrueFused

variable (L : TrueFused)

def traits : Op → KernelTraits
  | .prefill => L.prefillTraits
  | .decode => L.decodeTraits

def params : Op → FlashFwdParams
  | .prefill => L.prefillParams
  | .decode => L.decodeParams

def isSplit : Op → Bool
  | .prefill => L.prefillIsSplit
  | .decode => L.decodeIsSplit

/-- `UseSplitPrefill` and `UseSplitDecode` -/
def useSplit : Op → Bool
  | .prefill => L.prefillIsSplit || L.prefillParams.blockTable
  | .decode => L.decodeIsSplit || L.decodeParams.knew || L.decodeParams.cacheBatchIdx ||
      L.decodeParams.blockTable

/-- `num_mblocks_p` and `num_mblocks_d` -/
def numMblocks (op : Op) : Nat :=
  ((L.params op).seqlenQ + (L.traits op).kBlockM - 1) / (L.traits op).kBlockM

/-- Blocks the kernel distributes (`prefill_blocks`, `decode_blocks`). -/
def blocks (op : Op) : Nat :=
  if L.isSplit op then
    L.numMblocks op * (L.params op).b * (L.params op).h * (L.params op).numSplits
  else L.numMblocks op * (L.params op).b * (L.params op).h

def numThreads : Nat :=
  if L.prefillTraits.kNThreads > L.decodeTraits.kNThreads then L.prefillTraits.kNThreads
  else L.decodeTraits.kNThreads

/-- Logical thread blocks in one real one (`blk_factor_p`, `blk_factor_d`). -/
def blkFactor (op : Op) : Nat := L.numThreads / (L.traits op).kNThreads

/-- Real thread blocks an operation needs (`prefill_slots`, `decode_slots`). -/
def slots (op : Op) : Nat := (L.blocks op + L.blkFactor op - 1) / L.blkFactor op

/-- `num_blocks_prefill` counts splits also when the prefill kernel does not split. -/
def numBlocksPrefill : Nat :=
  L.numMblocks .prefill * L.prefillParams.b * L.prefillParams.h * L.prefillParams.numSplits

def numBlocksDecode : Nat :=
  if L.decodeIsSplit then
    L.numMblocks .decode * L.decodeParams.numSplits * L.decodeParams.b * L.decodeParams.h
  else L.numMblocks .decode * L.decodeParams.b * L.decodeParams.h

/-- Thread blocks launched. -/
def grid : Nat :=
  (L.numBlocksPrefill + L.blkFactor .prefill - 1) / L.blkFactor .prefill +
    (L.numBlocksDecode + L.blkFactor .decode - 1) / L.blkFactor .decode

/-! ## Tiles -/

end TrueFused

/-- One unit of attention work. -/
structure Tile where
  op : Op
  mBlock : Nat
  nSplitIdx : Nat
  bidb : Nat
  bidh : Nat
  deriving DecidableEq, Repr

namespace TrueFused

variable (L : TrueFused)

/-- The tile a logical thread block computes, if its id is one of a block. -/
def tile (op : Op) (linearBlockId : Nat) : Option Tile :=
  let numMblocks := L.numMblocks op
  let b := (L.params op).b
  let h := (L.params op).h
  if L.blocks op ≤ linearBlockId then none
  else if L.useSplit op then
    let numNSplits := (L.params op).numSplits
    some ⟨op, linearBlockId % numMblocks, linearBlockId / numMblocks % numNSplits,
      linearBlockId / numMblocks / numNSplits % b,
      linearBlockId / numMblocks / numNSplits / b % h⟩
  else
    match op with
    | .prefill =>
      some ⟨op, linearBlockId % numMblocks, 0, linearBlockId / numMblocks % b,
        linearBlockId / numMblocks / b % h⟩
    | .decode =>
      -- The head is not reduced modulo `h` here.
      some ⟨op, linearBlockId % numMblocks, 0, linearBlockId / numMblocks % b,
        linearBlockId / numMblocks / b⟩

/-- Number of splits of an operation's keys. -/
def splits (op : Op) : Nat := if L.isSplit op then (L.params op).numSplits else 1

/-- The tiles of a launch: every row block, split, batch entry and head of both operations. -/
structure IsTile (t : Tile) : Prop where
  mBlock_lt : t.mBlock < L.numMblocks t.op
  nSplitIdx_lt : t.nSplitIdx < L.splits t.op
  bidb_lt : t.bidb < (L.params t.op).b
  bidh_lt : t.bidh < (L.params t.op).h

/-- A side that decodes split indices without being launched with splits has only one. -/
def SplitsAgree : Prop :=
  ∀ op, L.useSplit op = true → L.isSplit op = false → (L.params op).numSplits = 1

end TrueFused

/-! ## Which launches agree on the splits -/

theorem autoFusedOp_eq (multiProcessorCount : Nat) (pp pd : FlashFwdParams) :
    autoFusedOp multiProcessorCount pp pd = 9 ∨ autoFusedOp multiProcessorCount pp pd = 11 := by
  dsimp only [autoFusedOp]
  repeat' split
  all_goals simp

/-- The operations with bit 8 split the prefill exactly when there is more than one split. -/
theorem splitsAgree_of_hdim128 {fusedOp : Nat} {pp pd : FlashFwdParams} {L : TrueFused}
    (hop : fusedOp &&& 8 ≠ 0)
    (h : runTrueFusedMhaFwdHdim128 fusedOp (decide (1 < pd.numSplits)) pp pd = some L) :
    L.SplitsAgree := by
  have hL : L.isSplit .prefill = decide (1 < pp.numSplits) ∧
      L.isSplit .decode = decide (1 < pd.numSplits) ∧
      L.prefillParams = pp ∧ L.decodeParams = pd := by
    simp only [runTrueFusedMhaFwdHdim128, if_pos hop] at h
    split at h
    · cases h
    split at h
    case isTrue hsplit =>
      cases h
      exact ⟨(decide_eq_true hsplit).symm, rfl, rfl, rfl⟩
    case isFalse hsplit =>
      have hfalse : decide (1 < pp.numSplits) = false := decide_eq_false hsplit
      split at h
      · cases h
        exact ⟨hfalse.symm, rfl, rfl, rfl⟩
      · split at h <;>
        · cases h
          exact ⟨hfalse.symm, rfl, rfl, rfl⟩
  obtain ⟨hp, hd, rfl, rfl⟩ := hL
  intro op _ hsplit
  cases op with
  | prefill =>
    rw [hp, decide_eq_false_iff_not, not_lt] at hsplit
    exact le_antisymm hsplit L.prefillParams.pos.2.2.2
  | decode =>
    rw [hd, decide_eq_false_iff_not, not_lt] at hsplit
    exact le_antisymm hsplit L.decodeParams.pos.2.2.2

/-- Every fused launch that `run_true_fused_mha_fwd` makes agrees on the splits. -/
theorem splitsAgree_of_run {multiProcessorCount fusedParams : Nat} {pp pd : FlashFwdParams}
    {L : TrueFused} (h : runTrueFusedMhaFwd multiProcessorCount fusedParams pp pd = some L) :
    L.SplitsAgree := by
  dsimp only [runTrueFusedMhaFwd] at h
  split at h
  · rcases autoFusedOp_eq multiProcessorCount pp pd with hop | hop
    · exact splitsAgree_of_hdim128 (by rw [hop]; decide) h
    · exact splitsAgree_of_hdim128 (by rw [hop]; decide) h
  · split at h
    case isTrue hmem =>
      simp only [List.mem_cons, List.not_mem_nil, or_false] at hmem
      rcases hmem with rfl | rfl | rfl | rfl | rfl
      · exact splitsAgree_of_hdim128 (by decide) h
      · exact splitsAgree_of_hdim128 (by decide) h
      · exact splitsAgree_of_hdim128 (by decide) h
      · exact splitsAgree_of_hdim128 (by decide) h
      · simp [runTrueFusedMhaFwdHdim128] at h
    · cases h

/-! ## Ids and tiles -/

/-- The digits of a number in mixed radix, least significant first. -/
theorem digits_iff {M N B : Nat} (hM : 0 < M) (hN : 0 < N) (hB : 0 < B) (id m n b h : Nat) :
    (id % M = m ∧ id / M % N = n ∧ id / M / N % B = b ∧ id / M / N / B = h) ↔
      m < M ∧ n < N ∧ b < B ∧ id = m + M * (n + N * (b + B * h)) := by
  constructor
  · rintro ⟨rfl, rfl, rfl, rfl⟩
    refine ⟨Nat.mod_lt _ hM, Nat.mod_lt _ hN, Nat.mod_lt _ hB, ?_⟩
    rw [Nat.mod_add_div, Nat.mod_add_div, Nat.mod_add_div]
  · rintro ⟨hm, hn, hb, rfl⟩
    have hdivM : (m + M * (n + N * (b + B * h))) / M = n + N * (b + B * h) := by
      rw [Nat.add_mul_div_left _ _ hM, Nat.div_eq_of_lt hm, Nat.zero_add]
    have hdivN : (n + N * (b + B * h)) / N = b + B * h := by
      rw [Nat.add_mul_div_left _ _ hN, Nat.div_eq_of_lt hn, Nat.zero_add]
    rw [hdivM, hdivN]
    refine ⟨?_, ?_, ?_, ?_⟩
    · rw [Nat.add_mul_mod_self_left, Nat.mod_eq_of_lt hm]
    · rw [Nat.add_mul_mod_self_left, Nat.mod_eq_of_lt hn]
    · rw [Nat.add_mul_mod_self_left, Nat.mod_eq_of_lt hb]
    · rw [Nat.add_mul_div_left _ _ hB, Nat.div_eq_of_lt hb, Nat.zero_add]

theorem add_mul_lt {a A c C : Nat} (ha : a < A) (hc : c < C) : a + A * c < A * C :=
  calc a + A * c < A + A * c := Nat.add_lt_add_right ha _
    _ = A * (c + 1) := by ring
    _ ≤ A * C := Nat.mul_le_mul_left A hc

namespace TrueFused

variable {L : TrueFused}

theorem numMblocks_pos (L : TrueFused) (op : Op) : 0 < L.numMblocks op := by
  have hM := (L.traits op).pos.1
  have hq := (L.params op).pos.2.2.1
  exact Nat.div_pos (by omega) hM

theorem splits_pos (L : TrueFused) (op : Op) : 0 < L.splits op := by
  unfold splits
  split
  · exact (L.params op).pos.2.2.2
  · exact Nat.one_pos

theorem blocks_eq (L : TrueFused) (op : Op) :
    L.blocks op = L.numMblocks op * (L.splits op * ((L.params op).b * (L.params op).h)) := by
  unfold blocks splits
  split <;> ring

/-- The id of a tile. -/
def linearBlockId (L : TrueFused) (t : Tile) : Nat :=
  t.mBlock + L.numMblocks t.op *
    (t.nSplitIdx + L.splits t.op * (t.bidb + (L.params t.op).b * t.bidh))

theorem IsTile.linearBlockId_lt {t : Tile} (ht : L.IsTile t) :
    L.linearBlockId t < L.blocks t.op := by
  rw [blocks_eq, linearBlockId]
  exact add_mul_lt ht.mBlock_lt (add_mul_lt ht.nSplitIdx_lt (add_mul_lt ht.bidb_lt ht.bidh_lt))

theorem SplitsAgree.numSplits_eq (hs : L.SplitsAgree) {op : Op} (huse : L.useSplit op = true) :
    (L.params op).numSplits = L.splits op := by
  unfold splits
  split
  case isTrue => rfl
  case isFalse hsplit => exact hs op huse (Bool.eq_false_of_not_eq_true hsplit)

/-- The head of an id, its last digit. -/
theorem head_lt {op : Op} {id : Nat} (hid : id < L.blocks op) :
    id / L.numMblocks op / L.splits op / (L.params op).b < (L.params op).h := by
  rw [blocks_eq] at hid
  exact Nat.div_lt_of_lt_mul (Nat.div_lt_of_lt_mul (Nat.div_lt_of_lt_mul hid))

/-- With agreeing splits the three ways of decoding an id are one. -/
theorem tile_of_lt (hs : L.SplitsAgree) {op : Op} {id : Nat} (hid : id < L.blocks op) :
    L.tile op id = some ⟨op, id % L.numMblocks op, id / L.numMblocks op % L.splits op,
      id / L.numMblocks op / L.splits op % (L.params op).b,
      id / L.numMblocks op / L.splits op / (L.params op).b⟩ := by
  have hhead := head_lt hid
  unfold tile
  dsimp only
  rw [if_neg (not_le.mpr hid)]
  split
  case isTrue huse =>
    rw [hs.numSplits_eq huse, Nat.mod_eq_of_lt hhead]
  case isFalse huse =>
    -- Without splits every id has split 0.
    have hone : L.splits op = 1 := by
      have hsplit : L.isSplit op = false := by
        cases op <;> simp_all [useSplit, isSplit]
      simp [splits, hsplit]
    rw [hone, Nat.div_one] at hhead ⊢
    rw [Nat.mod_one]
    cases op with
    | prefill => simp only [Nat.mod_eq_of_lt hhead]
    | decode => rfl

/-- The ids below the number of blocks are exactly the tiles, one id for each. -/
theorem tile_eq_some_iff (hs : L.SplitsAgree) {op : Op} {id : Nat} {t : Tile} :
    L.tile op id = some t ↔ t.op = op ∧ L.IsTile t ∧ L.linearBlockId t = id := by
  have hdigits := digits_iff (L.numMblocks_pos op) (L.splits_pos op) (L.params op).pos.1 id
  by_cases hid : id < L.blocks op
  · rw [tile_of_lt hs hid, Option.some.injEq]
    constructor
    · rintro rfl
      obtain ⟨hm, hn, hb, heq⟩ := (hdigits _ _ _ _).mp ⟨rfl, rfl, rfl, rfl⟩
      exact ⟨rfl, ⟨hm, hn, hb, head_lt hid⟩, heq.symm⟩
    · rintro ⟨rfl, ht, heq⟩
      obtain ⟨hm, hn, hb, hh⟩ := (hdigits _ _ _ _).mpr
        ⟨ht.mBlock_lt, ht.nSplitIdx_lt, ht.bidb_lt, heq.symm⟩
      rw [hm, hn, hb, hh]
  · have hnone : L.tile op id = none := by
      unfold tile
      exact if_pos (not_lt.mp hid)
    rw [hnone]
    refine iff_of_false (by simp) ?_
    rintro ⟨rfl, ht, rfl⟩
    exact hid ht.linearBlockId_lt

end TrueFused

end VAttention.Pod
