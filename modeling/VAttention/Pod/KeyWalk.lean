import Mathlib
import VAttention.Pod.Assignment
import VAttention.Pod.Mask

/-!
# The walk over the key blocks

Which key blocks a thread block of `compute_attn_1rowblock` or `compute_attn_1rowblock_splitkv`
scores for a query row, with which mask, and which columns of them it leaves unmasked.

The blocks are visited from the right, first the masking iterations, which may be left early, then
the others.  `fused_row_keys_exactly_once`: over all splits of a launch every key a query attends
to is scored once, no other column is ever unmasked, and no iteration that rescales without
`Check_inf` can meet a row of `-INFINITY`.

The scores and their softmax are not part of the model; appending new keys (`knew_ptr`) is taken
to have happened.
-/

namespace VAttention.Pod

open Lib.Blocks

/-- One iteration: its key block, and the template arguments of `apply_mask` and
    `softmax_rescale_o`. -/
structure Iteration where
  nBlock : Int
  causalMask : Bool
  evenMN : Bool
  isFirst : Bool
  checkInf : Bool
  deriving DecidableEq, Repr

namespace MaskParams

variable (p : MaskParams) (t : KernelTraits) (row : Nat)

/-- The masking iterations from block `n` on, and the block after them.  The loop is left early
    at the last block of the range, but only if there is more than one masking step. -/
def maskingLoop (checkInf : Bool) (nMin : Int) : Nat → Bool → Int → List Iteration × Int
  | 0, _, n => ([], n)
  | steps + 1, isFirst, n =>
    let iteration := ⟨n, p.isCausal, p.isEvenMN t, isFirst, checkInf⟩
    if 1 < p.nMaskingSteps t ∧ n ≤ nMin then ([iteration], n - 1)
    else
      let rest := maskingLoop checkInf nMin steps false (n - 1)
      (iteration :: rest.1, rest.2)

/-- The remaining iterations, `count` of them. -/
def mainLoop : Nat → Int → List Iteration
  | 0, _ => []
  | count + 1, n => ⟨n, false, true, false, p.isLocal⟩ :: mainLoop count (n - 1)

/-- Both loops over the blocks `nMin`, …, `nMax - 1`. -/
def rowLoop (checkInf : Bool) (nMin nMax : Int) : List Iteration :=
  let masking := p.maskingLoop t checkInf nMin (p.nMaskingSteps t) true (nMax - 1)
  masking.1 ++ p.mainLoop (masking.2 + 1 - nMin).toNat masking.2

/-- `compute_attn_1rowblock` -/
def computeAttn1rowblock : List Iteration :=
  let nMin := p.nBlockMin t row 0
  let nMax := p.nBlockMax t row (ceilDiv p.actualSeqlenK t.kBlockN)
  if (p.isCausal || p.isLocal || !p.isEvenMN t) && decide (nMax ≤ nMin) then []
  else p.rowLoop t (p.isCausal || p.isLocal) nMin nMax

/-- `compute_attn_1rowblock_splitkv` -/
def computeAttn1rowblockSplitkv (numNSplits nSplitIdx : Nat) : List Iteration :=
  let perSplit := p.nBlocksPerSplit t numNSplits
  let nMin := p.nBlockMin t row (nSplitIdx * perSplit : Nat)
  let nMax := p.nBlockMax t row
    (min (ceilDiv p.actualSeqlenK t.kBlockN) ((nSplitIdx + 1) * perSplit : Nat))
  if nMax ≤ nMin then []
  else p.rowLoop t (p.isCausal || p.isLocal || !p.isEvenMN t) nMin nMax

/-- The columns of a block that an iteration leaves unmasked. -/
def unmasked (it : Iteration) : List Int :=
  ((List.range t.kBlockN).map fun (c : Nat) => it.nBlock * t.kBlockN + (c : Int)).filter
    fun c => !p.masked it.causalMask it.evenMN row c

end MaskParams

namespace TrueFused

variable (L : TrueFused) (op : Op) (p : MaskParams) (row : Nat)

/-- All iterations made for a row, over the splits of its operation. -/
def iterations : List Iteration :=
  if L.useSplit op then
    (List.range (L.splits op)).flatMap
      (p.computeAttn1rowblockSplitkv (L.traits op) row (L.params op).numSplits)
  else p.computeAttn1rowblock (L.traits op) row

/-- The keys scored for a row, in the order of the iterations. -/
def scoredKeys : List Int :=
  (L.iterations op p row).flatMap (p.unmasked (L.traits op) row)

end TrueFused

/-! ## Descending blocks -/

/-- `hi - 1`, …, `hi - count` -/
def down (hi : Int) : Nat → List Int
  | 0 => []
  | count + 1 => (hi - 1) :: down (hi - 1) count

theorem mem_down {hi n : Int} {count : Nat} : n ∈ down hi count ↔ hi - count ≤ n ∧ n < hi := by
  induction count generalizing hi with
  | zero => simp [down]
  | succ count ih =>
    rw [down, List.mem_cons, ih]
    omega

theorem nodup_down (hi : Int) (count : Nat) : (down hi count).Nodup := by
  induction count generalizing hi with
  | zero => exact List.nodup_nil
  | succ count ih =>
    refine List.nodup_cons.mpr ⟨fun h => ?_, ih (hi - 1)⟩
    have hlt := (mem_down.mp h).2
    omega

theorem down_append (hi : Int) (m n : Nat) : down hi m ++ down (hi - m) n = down hi (m + n) := by
  induction m generalizing hi with
  | zero => simp [down]
  | succ m ih =>
    have hshift : hi - (m + 1 : Nat) = hi - 1 - m := by omega
    rw [Nat.succ_add, down, down, List.cons_append, hshift, ih]

/-! ## The loops -/

namespace MaskParams

/-- An iteration that leaves the visible keys of its block unmasked, and that does not rescale
    a row of `-INFINITY` unchecked. -/
structure Exact (p : MaskParams) (t : KernelTraits) (row : Nat) (it : Iteration) : Prop where
  masked_iff : ∀ c : Int, c / t.kBlockN = it.nBlock →
    (p.masked it.causalMask it.evenMN row c = false ↔ p.Seen row c)
  finite : it.isFirst = true ∨ it.checkInf = true ∨
    ∀ c : Int, c / t.kBlockN = it.nBlock → p.Seen row c

/-- A range of blocks the loops may be run on: not empty, within the keys, and cut at the
    diagonal. -/
structure Range (p : MaskParams) (t : KernelTraits) (row : Nat) (nMin nMax : Int) : Prop where
  nonneg : 0 ≤ nMin
  lt : nMin < nMax
  keys : nMax ≤ ceilDiv p.actualSeqlenK t.kBlockN
  diagonal : p.isCausal = true → nMax ≤ ceilDiv (p.diagonal t row) t.kBlockN

variable {p : MaskParams} {t : KernelTraits} {row : Nat} {n nMin nMax c : Int}
  {it : Iteration} {its : List Iteration}

/-- The masking iterations, with `steps` of them left at block `n`.  Either all have been made
    or there is no block left. -/
theorem maskingLoop_spec {checkInf : Bool} (hrange : p.Range t row nMin nMax)
    (hcheck : 1 < p.nMaskingSteps t → checkInf = true) (steps : Nat) {isFirst : Bool}
    (hsteps : steps ≤ p.nMaskingSteps t) (hn : n + 1 + (p.nMaskingSteps t - steps : Nat) = nMax)
    (hfirst : steps = p.nMaskingSteps t → isFirst = true)
    (hmin : nMin ≤ n + 1) (hmin' : 0 < steps → nMin ≤ n) :
    let result := p.maskingLoop t checkInf nMin steps isFirst n
    result.1.map Iteration.nBlock = down (n + 1) (n - result.2).toNat ∧
      (∀ it ∈ result.1, p.Exact t row it) ∧ result.2 ≤ n ∧ nMin ≤ result.2 + 1 ∧
      (result.2 + p.nMaskingSteps t < nMax ∨ result.2 + 1 = nMin) := by
  induction steps generalizing isFirst n with
  | zero => exact ⟨by simp [maskingLoop, down], by simp [maskingLoop], le_rfl, hmin,
      .inl (by simp only [maskingLoop]; omega)⟩
  | succ steps ih =>
    have hge := hmin' (Nat.succ_pos steps)
    have hnonneg := hrange.nonneg
    have hkeys := hrange.keys
    -- Only the first iteration can go without the check.
    have hinf : isFirst = true ∨ checkInf = true := by
      by_cases heq : steps + 1 = p.nMaskingSteps t
      · exact .inl (hfirst heq)
      · exact .inr (hcheck (by omega))
    have hexact : p.Exact t row ⟨n, p.isCausal, p.isEvenMN t, isFirst, checkInf⟩ :=
      ⟨fun c hc => masked_eq_false_iff (hnonneg.trans hge) (by omega) hc,
        hinf.imp_right Or.inl⟩
    rw [maskingLoop]
    by_cases hbreak : 1 < p.nMaskingSteps t ∧ n ≤ nMin
    · rw [if_pos hbreak]
      refine ⟨by simp [down], ?_, by simp, by simp only; omega, .inr (by simp only; omega)⟩
      intro it hit
      rwa [List.mem_singleton.mp hit]
    · rw [if_neg hbreak]
      obtain ⟨hmap, hall, hle, hmin'', hdone⟩ :=
        @ih (n - 1) false (by omega) (by omega) (by omega) (by omega) (by omega)
      refine ⟨?_, List.forall_mem_cons.mpr ⟨hexact, hall⟩, by simp only; omega, hmin'', hdone⟩
      have hcount : ∀ m : Int, m ≤ n - 1 → (n - m).toNat = (n - 1 - m).toNat + 1 := by
        intro m hm
        omega
      simp only [List.map_cons]
      rw [hmap, hcount _ hle, down, Int.sub_add_cancel, Int.add_sub_cancel]

theorem map_nBlock_mainLoop (p : MaskParams) (count : Nat) (n : Int) :
    (p.mainLoop count n).map Iteration.nBlock = down (n + 1) count := by
  induction count generalizing n with
  | zero => rfl
  | succ count ih =>
    rw [mainLoop, List.map_cons, ih, down, Int.sub_add_cancel, Int.add_sub_cancel]

/-- The remaining iterations. -/
theorem exact_mainLoop (hrange : p.Range t row nMin nMax) (count : Nat)
    (hcount : n + 1 - nMin = count) (hn : n + p.nMaskingSteps t < nMax ∨ count = 0) :
    ∀ it ∈ p.mainLoop count n, p.Exact t row it := by
  induction count generalizing n with
  | zero => exact fun it hit => absurd hit List.not_mem_nil
  | succ count ih =>
    have hsteps := hn.resolve_right (Nat.succ_ne_zero count)
    have hnonneg := hrange.nonneg
    have hkeys := hrange.keys
    have hmask : ∀ c : Int, c / t.kBlockN = n →
        (p.masked false true row c = false ↔ p.Seen row c) ∧
          (p.isLocal = false → p.Seen row c) := fun c hc =>
      masked_main_eq_false_iff (by omega) (by omega)
        (fun h => hsteps.trans_le (hrange.diagonal h)) hc
    refine List.forall_mem_cons.mpr ⟨⟨fun c hc => (hmask c hc).1, ?_⟩,
      ih (by omega) (.inl (by omega))⟩
    cases hlocal : p.isLocal with
    | true => exact .inr (.inl rfl)
    | false => exact .inr (.inr fun c hc => (hmask c hc).2 hlocal)

/-- The loops visit every block of the range once, each with an exact mask. -/
theorem rowLoop_spec {checkInf : Bool} (hrange : p.Range t row nMin nMax)
    (hcheck : 1 < p.nMaskingSteps t → checkInf = true) :
    (p.rowLoop t checkInf nMin nMax).map Iteration.nBlock = down nMax (nMax - nMin).toNat ∧
      ∀ it ∈ p.rowLoop t checkInf nMin nMax, p.Exact t row it := by
  have hlt := hrange.lt
  have hspec := maskingLoop_spec hrange hcheck (p.nMaskingSteps t) le_rfl
    (show nMax - 1 + 1 + _ = nMax by omega) (fun _ => rfl) (by omega) (by omega)
  rw [rowLoop]
  generalize p.maskingLoop t checkInf nMin (p.nMaskingSteps t) true (nMax - 1) = masking at *
  obtain ⟨hmap, hall, hle, hmin, hdone⟩ := hspec
  constructor
  · have hstart : masking.2 + 1 = nMax - (nMax - 1 - masking.2).toNat := by omega
    have hcount : (nMax - nMin).toNat =
        (nMax - 1 - masking.2).toNat + (masking.2 + 1 - nMin).toNat := by omega
    rw [List.map_append, hmap, map_nBlock_mainLoop, hcount, ← down_append, Int.sub_add_cancel,
      ← hstart]
  · refine List.forall_mem_append.mpr ⟨hall, ?_⟩
    exact exact_mainLoop hrange _ (by omega) (hdone.imp_right fun h => by omega)

/-! ## Blocks that are not visited -/

/-- Iterations over the blocks `lo`, …, `hi - 1` as far as they hold visible keys. -/
structure Walk (p : MaskParams) (t : KernelTraits) (row : Nat) (lo hi : Int)
    (its : List Iteration) : Prop where
  exact : ∀ it ∈ its, p.Exact t row it
  nodup : (its.map Iteration.nBlock).Nodup
  within : ∀ n ∈ its.map Iteration.nBlock, lo ≤ n ∧ n < hi
  complete : ∀ c, p.Seen row c → lo ≤ c / t.kBlockN → c / t.kBlockN < hi →
    c / t.kBlockN ∈ its.map Iteration.nBlock

/-- A block with a visible key is not cut off by the window or the diagonal. -/
theorem mem_bounds {first last : Int} (hseen : p.Seen row c) (hfirst : first ≤ c / t.kBlockN)
    (hlast : c / t.kBlockN < last) :
    p.nBlockMin t row first ≤ c / t.kBlockN ∧ c / t.kBlockN <
      p.nBlockMax t row (min (ceilDiv p.actualSeqlenK t.kBlockN) last) := by
  have hpos := kBlockN_pos t
  have hrow := mBlock_mul_le t row
  have hrow' := lt_mBlock_succ_mul t row
  obtain ⟨⟨hc0, hck⟩, hright, hleft⟩ := hseen
  have hblock : 0 ≤ c / t.kBlockN := Int.ediv_nonneg hc0 hpos.le
  obtain ⟨hlow, hhigh⟩ := mul_le_of_ediv_eq (t := t) (c := c) rfl
  have hlast' := lt_min ((lt_ceilDiv_iff hpos hblock).mpr (hlow.trans_lt hck)) hlast
  unfold nBlockMin nBlockMax
  constructor
  · split_ifs with hlocal
    · have hleft' := hleft hlocal
      exact max_le hfirst ((tdiv_le_iff hpos hblock).mpr (by omega))
    · exact hfirst
  · split_ifs with hor
    · have hright' := hright (Bool.or_eq_true_iff.mp hor)
      exact lt_min hlast' ((lt_ceilDiv_iff hpos hblock).mpr (by omega))
    · exact hlast'

/-- The kernels' block bounds lose no visible key, whether they stop early or run the loops. -/
theorem walk_of_bounds {first last : Int} {checkInf : Bool} {exit : Prop} [Decidable exit]
    (hfirst : 0 ≤ first)
    (hcheck : 1 < p.nMaskingSteps t → checkInf = true)
    (hmin : nMin = p.nBlockMin t row first)
    (hmax : nMax = p.nBlockMax t row (min (ceilDiv p.actualSeqlenK t.kBlockN) last))
    (hexit : exit ↔ nMax ≤ nMin) :
    p.Walk t row first last (if exit then [] else p.rowLoop t checkInf nMin nMax) := by
  have hbounds : ∀ c, p.Seen row c → first ≤ c / t.kBlockN → c / t.kBlockN < last →
      nMin ≤ c / t.kBlockN ∧ c / t.kBlockN < nMax := by
    rw [hmin, hmax]
    exact fun c => mem_bounds
  have hmin' : first ≤ nMin := by
    rw [hmin, nBlockMin]
    split_ifs
    · exact le_max_left _ _
    · exact le_rfl
  have hmax' : nMax ≤ min (ceilDiv p.actualSeqlenK t.kBlockN) last := by
    rw [hmax, nBlockMax]
    split_ifs
    · exact min_le_left _ _
    · exact le_rfl
  by_cases h : exit
  · have hle := hexit.mp h
    rw [if_pos h]
    refine ⟨by simp, List.nodup_nil, by simp, fun c hseen hlo hhi => ?_⟩
    have hc := hbounds c hseen hlo hhi
    omega
  · rw [if_neg h]
    have hrange : p.Range t row nMin nMax := by
      refine ⟨hfirst.trans hmin', not_le.mp (mt hexit.mpr h), (le_min_iff.mp hmax').1,
        fun hcausal => ?_⟩
      rw [hmax, nBlockMax, hcausal, Bool.true_or, if_pos rfl]
      exact min_le_right _ _
    obtain ⟨hmap, hall⟩ := rowLoop_spec hrange hcheck
    refine ⟨hall, hmap ▸ nodup_down _ _, fun n hn => ?_, fun c hseen hlo hhi => ?_⟩
    · rw [hmap, mem_down] at hn
      omega
    · have hc := hbounds c hseen hlo hhi
      rw [hmap, mem_down]
      omega

/-- More than one masking step is made only under a causal mask or a window. -/
theorem isCausal_or_isLocal_of_one_lt (h : 1 < p.nMaskingSteps t) :
    (p.isCausal || p.isLocal) = true := by
  by_contra hnot
  rw [Bool.not_eq_true, Bool.or_eq_false_iff] at hnot
  simp [nMaskingSteps, hnot.1, hnot.2] at h

theorem walk_computeAttn1rowblock (hk : 0 < p.seqlenK) :
    p.Walk t row 0 (ceilDiv p.actualSeqlenK t.kBlockN) (p.computeAttn1rowblock t row) := by
  refine walk_of_bounds le_rfl isCausal_or_isLocal_of_one_lt rfl (by rw [min_self]) ?_
  rw [Bool.and_eq_true, decide_eq_true_eq, and_iff_right_iff_imp]
  -- Without a causal mask, a window or a ragged end the range is all blocks.
  intro hle
  by_contra hnone
  rw [Bool.not_eq_true, Bool.or_eq_false_iff, Bool.or_eq_false_iff] at hnone
  refine not_lt.mpr hle ?_
  rw [nBlockMin, nBlockMax, hnone.1.1, hnone.1.2, Bool.false_or, if_neg Bool.false_ne_true,
    if_neg Bool.false_ne_true, lt_ceilDiv_iff (kBlockN_pos t) le_rfl, zero_mul,
    actualSeqlenK_of_isEvenMN (by simpa using hnone.2)]
  exact_mod_cast hk

theorem walk_computeAttn1rowblockSplitkv (p : MaskParams) (t : KernelTraits)
    (row numNSplits nSplitIdx : Nat) :
    p.Walk t row (nSplitIdx * p.nBlocksPerSplit t numNSplits : Nat)
      ((nSplitIdx + 1) * p.nBlocksPerSplit t numNSplits : Nat)
      (p.computeAttn1rowblockSplitkv t row numNSplits nSplitIdx) := by
  have hcheck : 1 < p.nMaskingSteps t →
      (p.isCausal || p.isLocal || !p.isEvenMN t) = true := by
    intro h
    rw [isCausal_or_isLocal_of_one_lt h, Bool.true_or]
  exact walk_of_bounds (Int.natCast_nonneg _) hcheck rfl rfl Iff.rfl

/-- The walks of all splits are one walk. -/
theorem walk_splits (p : MaskParams) (t : KernelTraits) (row numNSplits splits : Nat) :
    p.Walk t row 0 (splits * p.nBlocksPerSplit t numNSplits : Nat)
      ((List.range splits).flatMap (p.computeAttn1rowblockSplitkv t row numNSplits)) := by
  induction splits with
  | zero => exact ⟨by simp, by simp, by simp, fun c _ hlo hhi => by omega⟩
  | succ splits ih =>
    have hwalk := p.walk_computeAttn1rowblockSplitkv t row numNSplits splits
    rw [List.range_succ, List.flatMap_append, List.flatMap_singleton]
    refine ⟨List.forall_mem_append.mpr ⟨ih.exact, hwalk.exact⟩, ?_, ?_, ?_⟩
    · rw [List.map_append]
      refine ih.nodup.append hwalk.nodup fun n hn hn' => ?_
      have hlt := (ih.within n hn).2
      have hge := (hwalk.within n hn').1
      omega
    · rw [List.map_append]
      refine List.forall_mem_append.mpr ⟨fun n hn => ?_, fun n hn => ?_⟩
      · have hin := ih.within n hn
        rw [Nat.succ_mul]
        omega
      · have hin := hwalk.within n hn
        omega
    · intro c hseen hlo hhi
      rw [List.map_append, List.mem_append]
      rcases lt_or_ge (c / t.kBlockN) (splits * p.nBlocksPerSplit t numNSplits : Nat) with h | h
      · exact .inl (ih.complete c hseen hlo h)
      · exact .inr (hwalk.complete c hseen h hhi)

theorem mem_unmasked (h : p.Exact t row it) :
    c ∈ p.unmasked t row it ↔ p.Seen row c ∧ c / t.kBlockN = it.nBlock := by
  have hcols : (∃ i < t.kBlockN, it.nBlock * t.kBlockN + (i : Int) = c) ↔
      c / t.kBlockN = it.nBlock := by
    constructor
    · rintro ⟨i, hi, rfl⟩
      rw [Int.mul_comm, Int.mul_add_ediv_left _ _ (kBlockN_pos t).ne',
        Int.ediv_eq_zero_of_lt (Int.natCast_nonneg i) (by exact_mod_cast hi), Int.add_zero]
    · intro hc
      obtain ⟨hlow, hhigh⟩ := mul_le_of_ediv_eq hc
      rw [Int.add_mul] at hhigh
      exact ⟨(c - it.nBlock * t.kBlockN).toNat, by omega, by omega⟩
  simp only [unmasked, List.mem_filter, List.mem_map, List.mem_range, hcols,
    Bool.not_eq_true']
  rw [and_comm]
  exact and_congr_left fun hc => h.masked_iff c hc

/-- A walk that passes every visible key scores each of them once. -/
theorem Walk.scored {hi : Int} (h : p.Walk t row 0 hi its)
    (hhi : ∀ c, p.Seen row c → c / t.kBlockN < hi) :
    (its.flatMap (p.unmasked t row)).Nodup ∧
      ∀ c, c ∈ its.flatMap (p.unmasked t row) ↔ p.Seen row c := by
  constructor
  · refine List.nodup_flatMap.mpr ⟨fun it _ => ?_, ?_⟩
    · refine (List.nodup_range.map fun i j hij => ?_).filter _
      omega
    · refine (List.pairwise_map.mp h.nodup).imp_of_mem fun ha hb hne c hca hcb => hne ?_
      exact ((mem_unmasked (h.exact _ ha)).mp hca).2.symm.trans
        ((mem_unmasked (h.exact _ hb)).mp hcb).2
  · intro c
    rw [List.mem_flatMap]
    constructor
    · rintro ⟨it, hit, hc⟩
      exact ((mem_unmasked (h.exact it hit)).mp hc).1
    · intro hseen
      have hblock := Int.ediv_nonneg hseen.1.1 (kBlockN_pos t).le
      obtain ⟨it, hit, heq⟩ := List.mem_map.mp (h.complete c hseen hblock (hhi c hseen))
      exact ⟨it, hit, (mem_unmasked (h.exact it hit)).mpr ⟨hseen, heq.symm⟩⟩

end MaskParams

/-- The iterations of a row are one walk past every key it sees. -/
theorem exists_walk {L : TrueFused} (hs : L.SplitsAgree) (op : Op) {p : MaskParams} (row : Nat)
    (hpos : 0 < p.seqlenK) (hk : p.actualSeqlenK ≤ p.seqlenK) :
    ∃ hi, p.Walk (L.traits op) row 0 hi (L.iterations op p row) ∧
      ∀ c, p.Seen row c → c / (L.traits op).kBlockN < hi := by
  have hN := MaskParams.kBlockN_pos (L.traits op)
  unfold TrueFused.iterations
  split
  case isTrue huse =>
    refine ⟨_, p.walk_splits (L.traits op) row _ _, fun c hseen => ?_⟩
    rw [hs.numSplits_eq huse, Int.ediv_lt_iff_lt_mul hN]
    have hblocks := MaskParams.le_ceil_mul p.seqlenK (L.traits op).pos.2.1
    have hsplits := Nat.mul_le_mul_right (L.traits op).kBlockN (MaskParams.le_ceil_mul
      ((p.seqlenK + (L.traits op).kBlockN - 1) / (L.traits op).kBlockN) (L.splits_pos op))
    have hlt := hseen.1.2
    rw [Nat.mul_comm (L.splits op), MaskParams.nBlocksPerSplit]
    exact_mod_cast hlt.trans_le (Int.ofNat_le.mpr (hk.trans (hblocks.trans hsplits)))
  case isFalse =>
    refine ⟨_, MaskParams.walk_computeAttn1rowblock hpos, fun c hseen => ?_⟩
    rw [lt_ceilDiv_iff hN (Int.ediv_nonneg hseen.1.1 hN.le)]
    exact (Int.ediv_mul_le c hN.ne').trans_lt hseen.1.2

end VAttention.Pod
