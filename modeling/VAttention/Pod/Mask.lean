import Mathlib
import VAttention.Lib.Blocks
import VAttention.Pod.Launch

/-!
# Masks of the attention kernels

Which keys a query row may see: the window `set_params_fused_fprop` sets up, the mask of `mask.h`,
and the range of key blocks a thread block visits.

The kernels mask only the first few key blocks against the diagonal and the end of the keys.
`masked_eq_false_iff` and `masked_main_eq_false_iff`: in the blocks of either loop the mask leaves
exactly the visible keys, for every window and tile size.
-/

namespace VAttention.Pod

open Lib.Blocks

/-! ## Parameters -/

/-- What the kernels read to place the mask. -/
structure MaskParams where
  seqlenQ : Nat
  seqlenK : Nat
  /-- The sequence's entry of `cu_seqlens_k`, if there is one. -/
  seqlensK : Option Nat
  isCausal : Bool
  windowSizeLeft : Int
  windowSizeRight : Int
  causal_right : isCausal = true → windowSizeRight = 0

theorem causal_right_fprop {left right : Int} (h : decide (left < 0 ∧ right = 0) = true)
    (left' seqlenK : Int) : (if 0 ≤ left' ∧ right < 0 then seqlenK else right) = 0 := by
  obtain ⟨-, rfl⟩ := of_decide_eq_true h
  exact if_neg fun hneg => absurd hneg.2 (lt_irrefl 0)

/-- `set_params_fused_fprop`: an open end of a one-sided window is as wide as the keys. -/
def setParamsFusedFprop (seqlenQ seqlenK : Nat) (seqlensK : Option Nat)
    (windowSizeLeft windowSizeRight : Int) : MaskParams :=
  let left := if windowSizeLeft < 0 ∧ 0 ≤ windowSizeRight then (seqlenK : Int) else windowSizeLeft
  let right := if 0 ≤ left ∧ windowSizeRight < 0 then (seqlenK : Int) else windowSizeRight
  { seqlenQ, seqlenK, seqlensK
    isCausal := decide (windowSizeLeft < 0 ∧ windowSizeRight = 0)
    windowSizeLeft := left
    windowSizeRight := right
    causal_right := fun h => causal_right_fprop h left seqlenK }

namespace MaskParams

variable (p : MaskParams) (t : KernelTraits)

/-- `binfo.actual_seqlen_k` -/
def actualSeqlenK : Nat := p.seqlensK.getD p.seqlenK

def isLocal : Bool :=
  (decide (0 ≤ p.windowSizeLeft) || decide (0 ≤ p.windowSizeRight)) && !p.isCausal

def isEvenMN : Bool :=
  p.seqlensK.isNone && p.seqlenK % t.kBlockN == 0 && p.seqlenQ % t.kBlockM == 0 && !p.isLocal

/-! ## Masks -/

def colIdxLimitLeft (row : Int) : Int :=
  max 0 (row + p.actualSeqlenK - p.seqlenQ - p.windowSizeLeft)

def colIdxLimitRight (row : Int) : Int :=
  min (p.actualSeqlenK : Int) (row + 1 + p.actualSeqlenK - p.seqlenQ + p.windowSizeRight)

/-- Whether `apply_mask<Causal_mask, Is_even_MN>` sets the score of a column to `-INFINITY`. -/
def masked (causalMask evenMN : Bool) (row col : Int) : Bool :=
  if causalMask || p.isLocal || !evenMN then
    if !p.isLocal && !causalMask then !evenMN && decide ((p.actualSeqlenK : Int) ≤ col)
    else
      causalMask && decide (p.colIdxLimitRight row ≤ col) ||
        p.isLocal && (decide (p.colIdxLimitRight row ≤ col) ||
          decide (col < p.colIdxLimitLeft row))
  else false

theorem masked_causal {p : MaskParams} (h : p.isLocal = false) (evenMN : Bool) (row col : Int) :
    p.masked true evenMN row col = decide (p.colIdxLimitRight row ≤ col) := by
  simp [masked, h]

theorem masked_local {p : MaskParams} (h : p.isLocal = true) (evenMN : Bool) (row col : Int) :
    p.masked false evenMN row col =
      (decide (p.colIdxLimitRight row ≤ col) || decide (col < p.colIdxLimitLeft row)) := by
  simp [masked, h]

theorem masked_neither {p : MaskParams} (h : p.isLocal = false) (evenMN : Bool) (row col : Int) :
    p.masked false evenMN row col = (!evenMN && decide ((p.actualSeqlenK : Int) ≤ col)) := by
  cases evenMN <;> simp [masked, h]

/-- Whether a row may see a key. -/
def Seen (row col : Int) : Prop :=
  (0 ≤ col ∧ col < p.actualSeqlenK) ∧
    (p.isCausal = true ∨ p.isLocal = true →
      col < row + 1 + p.actualSeqlenK - p.seqlenQ + p.windowSizeRight) ∧
    (p.isLocal = true → row + p.actualSeqlenK - p.seqlenQ - p.windowSizeLeft ≤ col)

/-! ## Key blocks -/

/-- The row block of a row. -/
def mBlock (row : Nat) : Int := (row / t.kBlockM : Nat)

/-- `n_block_min`, from the first block of the split (or zero). -/
def nBlockMin (row : Nat) (first : Int) : Int :=
  if p.isLocal then
    max first ((mBlock t row * t.kBlockM + p.actualSeqlenK - p.seqlenQ - p.windowSizeLeft).tdiv
      t.kBlockN)
  else first

/-- `n_block_max`, from the end of the keys or of the split. -/
def nBlockMax (row : Nat) (last : Int) : Int :=
  if p.isCausal || p.isLocal then
    min last (ceilDiv
      ((mBlock t row + 1) * t.kBlockM + p.actualSeqlenK - p.seqlenQ + p.windowSizeRight) t.kBlockN)
  else last

def nMaskingSteps : Nat :=
  if !p.isCausal && !p.isLocal then 1
  else if p.isEvenMN t && p.isCausal then (t.kBlockM + t.kBlockN - 1) / t.kBlockN
  else (t.kBlockM + t.kBlockN - 1) / t.kBlockN + 1

/-- `n_blocks_per_split` -/
def nBlocksPerSplit (numNSplits : Nat) : Nat :=
  ((p.seqlenK + t.kBlockN - 1) / t.kBlockN + numNSplits - 1) / numNSplits

end MaskParams

/-! ## Which columns are masked -/

namespace MaskParams

variable {p : MaskParams} {t : KernelTraits} {row : Nat} {n c : Int}

theorem kBlockN_pos (t : KernelTraits) : (0 : Int) < t.kBlockN := by exact_mod_cast t.pos.2.1

/-- A column of block `n`. -/
theorem mul_le_of_ediv_eq (hc : c / t.kBlockN = n) :
    n * t.kBlockN ≤ c ∧ c < (n + 1) * t.kBlockN := by
  subst hc
  exact ⟨Int.ediv_mul_le c (kBlockN_pos t).ne', Int.lt_ediv_add_one_mul_self c (kBlockN_pos t)⟩

theorem seen_of_neither {row c : Int} (hcausal : p.isCausal = false)
    (hlocal : p.isLocal = false) : p.Seen row c ↔ 0 ≤ c ∧ c < p.actualSeqlenK := by
  rw [Seen, hcausal, hlocal]
  simp

/-- The window mask is exact in every block. -/
theorem masked_local_eq_false_iff {evenMN : Bool} {row c : Int} (hlocal : p.isLocal = true)
    (hc0 : 0 ≤ c) : p.masked false evenMN row c = false ↔ p.Seen row c := by
  rw [masked_local hlocal, Bool.or_eq_false_iff, decide_eq_false_iff_not,
    decide_eq_false_iff_not, Seen, hlocal, colIdxLimitRight, colIdxLimitLeft]
  simp only [or_true, forall_const]
  omega

theorem isLocal_eq_false_of_isCausal (h : p.isCausal = true) : p.isLocal = false := by
  rw [isLocal, h]
  exact Bool.and_false _

theorem mBlock_mul_le (t : KernelTraits) (row : Nat) : mBlock t row * t.kBlockM ≤ row := by
  rw [mBlock]
  exact_mod_cast Nat.div_mul_le_self row t.kBlockM

theorem lt_mBlock_succ_mul (t : KernelTraits) (row : Nat) :
    (row : Int) < (mBlock t row + 1) * t.kBlockM := by
  have h := (Nat.div_lt_iff_lt_mul t.pos.1).mp (Nat.lt_succ_self (row / t.kBlockM))
  rw [mBlock]
  exact_mod_cast h

/-- Even tiles are only used for keys of full length. -/
theorem actualSeqlenK_of_isEvenMN (heven : p.isEvenMN t = true) :
    p.actualSeqlenK = p.seqlenK := by
  simp only [isEvenMN, Bool.and_eq_true, Option.isNone_iff_eq_none] at heven
  rw [actualSeqlenK, heven.1.1.1, Option.getD_none]

/-- What even tiles mean for the sizes. -/
theorem dvd_of_isEvenMN (heven : p.isEvenMN t = true) :
    (t.kBlockN : Int) ∣ p.actualSeqlenK ∧ (t.kBlockM : Int) ∣ p.seqlenQ := by
  rw [actualSeqlenK_of_isEvenMN heven]
  simp only [isEvenMN, Bool.and_eq_true, beq_iff_eq] at heven
  obtain ⟨⟨⟨-, hk⟩, hq⟩, -⟩ := heven
  exact ⟨by exact_mod_cast Nat.dvd_of_mod_eq_zero hk, by exact_mod_cast Nat.dvd_of_mod_eq_zero hq⟩

/-- Multiples of `d` are `d` apart. -/
theorem add_le_of_dvd {d a b : Int} (ha : d ∣ a) (hb : d ∣ b) (h : a < b) : a + d ≤ b := by
  have hle := Int.le_of_dvd (by omega) (dvd_sub hb ha)
  omega

/-- In the masking iterations the mask leaves exactly the keys the row may see. -/
theorem masked_eq_false_iff (hn : 0 ≤ n) (hlast : n < ceilDiv p.actualSeqlenK t.kBlockN)
    (hc : c / t.kBlockN = n) :
    p.masked p.isCausal (p.isEvenMN t) row c = false ↔ p.Seen row c := by
  have hpos := kBlockN_pos t
  rw [lt_ceilDiv_iff hpos hn] at hlast
  obtain ⟨hlow, hhigh⟩ := mul_le_of_ediv_eq hc
  have hc0 : 0 ≤ c := (Int.mul_nonneg hn hpos.le).trans hlow
  cases hcausal : p.isCausal with
  | true =>
    have hlocal := isLocal_eq_false_of_isCausal hcausal
    rw [masked_causal hlocal, decide_eq_false_iff_not, Seen, hcausal, hlocal,
      colIdxLimitRight]
    simp only [true_or, forall_const, Bool.false_eq_true, IsEmpty.forall_iff, and_true]
    omega
  | false =>
    cases hlocal : p.isLocal with
    | true => exact masked_local_eq_false_iff hlocal hc0
    | false =>
      rw [masked_neither hlocal, seen_of_neither hcausal hlocal]
      cases heven : p.isEvenMN t with
      | false =>
        rw [Bool.not_false, Bool.true_and, decide_eq_false_iff_not]
        omega
      | true =>
        -- No column is masked: the block ends within the keys.
        have hend := add_le_of_dvd (Dvd.intro_left n rfl) (dvd_of_isEvenMN heven).1 hlast
        rw [Int.add_mul] at hhigh
        exact iff_of_true rfl ⟨hc0, by omega⟩

/-- Blocks that are counted by rounding up cover everything. -/
theorem le_ceil_mul (a : Nat) {b : Nat} (hb : 0 < b) : a ≤ (a + b - 1) / b * b := by
  have hdiv := Nat.div_add_mod (a + b - 1) b
  have hmod := Nat.mod_lt (a + b - 1) hb
  rw [Nat.mul_comm] at hdiv
  omega

/-- Where the diagonal leaves the row block of a row, counted from the first key. -/
def diagonal (p : MaskParams) (t : KernelTraits) (row : Nat) : Int :=
  (mBlock t row + 1) * t.kBlockM + p.actualSeqlenK - p.seqlenQ + p.windowSizeRight

/-- On even tiles the diagonal is a multiple of the smaller tile size, so one masking step less
    is enough. -/
theorem below_diagonal_even (hcausal : p.isCausal = true) (heven : p.isEvenMN t = true)
    (hlast : (n + ((t.kBlockM + t.kBlockN - 1) / t.kBlockN : Nat)) * t.kBlockN <
      p.diagonal t row) :
    (n + 1) * t.kBlockN + t.kBlockM ≤ p.diagonal t row := by
  obtain ⟨hk, hq⟩ := dvd_of_isEvenMN heven
  have hdvd : ∀ d : Int, d ∣ t.kBlockM → d ∣ t.kBlockN → d ∣ p.diagonal t row := by
    intro d hM hN
    rw [diagonal, p.causal_right hcausal, add_zero]
    exact dvd_sub (dvd_add (hM.mul_left _) (hN.trans hk)) (hM.trans hq)
  rcases t.nested with hMN | hNM
  · -- One key block covers the row block.
    have hone : (t.kBlockM + t.kBlockN - 1) / t.kBlockN = 1 := by
      have hle := Nat.le_of_dvd t.pos.2.1 hMN
      have hM := t.pos.1
      exact Nat.div_eq_of_lt_le (by omega) (by omega)
    have hMN' : (t.kBlockM : Int) ∣ t.kBlockN := by exact_mod_cast hMN
    rw [hone, Nat.cast_one] at hlast
    exact add_le_of_dvd (hMN'.mul_left _) (hdvd _ dvd_rfl hMN') hlast
  · -- The row block is covered by whole key blocks.
    obtain ⟨m, hm⟩ := hNM
    have hquot : (t.kBlockM + t.kBlockN - 1) / t.kBlockN = m := by
      have hN := t.pos.2.1
      rw [hm, Nat.add_sub_assoc hN, Nat.mul_add_div hN, Nat.div_eq_of_lt (by omega), Nat.add_zero]
    have hM : (t.kBlockM : Int) = m * t.kBlockN := by
      rw [hm, Nat.cast_mul, mul_comm]
    rw [hquot] at hlast
    have hle := add_le_of_dvd (Dvd.intro_left _ rfl)
      (hdvd _ (hM ▸ Dvd.intro_left _ rfl) dvd_rfl) hlast
    rw [hM]
    rw [Int.add_mul] at hle ⊢
    omega

/-- Past the masking steps a causal block lies below the diagonal of every row of the tile. -/
theorem below_diagonal (hn : 0 ≤ n) (hcausal : p.isCausal = true)
    (hlast : n + p.nMaskingSteps t < ceilDiv (p.diagonal t row) t.kBlockN) :
    (n + 1) * t.kBlockN + t.kBlockM ≤ p.diagonal t row := by
  rw [lt_ceilDiv_iff (kBlockN_pos t) (by omega)] at hlast
  cases heven : p.isEvenMN t with
  | true =>
    refine below_diagonal_even hcausal heven ?_
    simpa [nMaskingSteps, hcausal, heven] using hlast
  | false =>
    have hcover : (t.kBlockM : Int) ≤
        ((t.kBlockM + t.kBlockN - 1) / t.kBlockN : Nat) * t.kBlockN := by
      exact_mod_cast le_ceil_mul _ t.pos.2.1
    simp only [nMaskingSteps, hcausal, heven, Bool.not_true, Bool.false_and, Bool.false_eq_true,
      if_false, Nat.cast_add, Nat.cast_one, Int.add_mul] at hlast ⊢
    omega

theorem nMaskingSteps_pos (p : MaskParams) (t : KernelTraits) : 0 < p.nMaskingSteps t := by
  have hM := t.pos.1
  have hcover := le_ceil_mul t.kBlockM t.pos.2.1
  have hceil : 0 < (t.kBlockM + t.kBlockN - 1) / t.kBlockN :=
    Nat.pos_of_mul_pos_right (hM.trans_le hcover)
  unfold nMaskingSteps
  split_ifs
  · exact Nat.one_pos
  · exact hceil
  · exact Nat.succ_pos _

/-- Past the masking steps a mask that looks at the window alone is enough, and without a window
    nothing is masked. -/
theorem masked_main_eq_false_iff (hn : 0 ≤ n)
    (hkeys : n + p.nMaskingSteps t < ceilDiv p.actualSeqlenK t.kBlockN)
    (hdiag : p.isCausal = true → n + p.nMaskingSteps t < ceilDiv (p.diagonal t row) t.kBlockN)
    (hc : c / t.kBlockN = n) :
    (p.masked false true row c = false ↔ p.Seen row c) ∧
      (p.isLocal = false → p.Seen row c) := by
  have hpos := kBlockN_pos t
  have hsteps := p.nMaskingSteps_pos t
  obtain ⟨hlow, hhigh⟩ := mul_le_of_ediv_eq hc
  have hc0 : 0 ≤ c := (Int.mul_nonneg hn hpos.le).trans hlow
  have hend : (n + 1) * t.kBlockN < p.actualSeqlenK :=
    (lt_ceilDiv_iff hpos (by omega)).mp (by omega)
  cases hlocal : p.isLocal with
  | true =>
    exact ⟨masked_local_eq_false_iff hlocal hc0, fun h => absurd h Bool.noConfusion⟩
  | false =>
    have hseen : p.Seen row c := by
      refine ⟨⟨hc0, by omega⟩, ?_, fun h => absurd (hlocal.symm.trans h) Bool.false_ne_true⟩
      rintro (hcausal | h)
      · have hbelow := below_diagonal hn hcausal (hdiag hcausal)
        have hrow := mBlock_mul_le t row
        rw [diagonal, Int.add_mul (mBlock t row)] at hbelow
        omega
      · exact absurd (hlocal.symm.trans h) Bool.false_ne_true
    exact ⟨iff_of_true (masked_neither hlocal true row c) hseen, fun _ => hseen⟩

end MaskParams

/-! ## From the call to the mask -/

/-- Whether query `row` attends to key `j` of `keys`: the queries are the last positions of the
    keys, and a negative window size leaves its side open.  Causal attention is `right = 0`. -/
def InWindow (seqlenQ keys : Nat) (left right : Int) (row : Nat) (j : Int) : Prop :=
  (0 ≤ j ∧ j < keys) ∧ (0 ≤ right → j ≤ row + keys - seqlenQ + right) ∧
    (0 ≤ left → row + keys - seqlenQ - left ≤ j)

/-- The window that `set_params_fused_fprop` sets up is the one it was given. -/
theorem seen_fprop {seqlenQ seqlenK : Nat} {seqlensK : Option Nat} {left right c : Int}
    {row : Nat} (hk : seqlensK.getD seqlenK ≤ seqlenK) (hq : seqlenQ ≤ seqlenK)
    (hrow : row < seqlenQ) :
    (setParamsFusedFprop seqlenQ seqlenK seqlensK left right).Seen row c ↔
      InWindow seqlenQ (seqlensK.getD seqlenK) left right row c := by
  simp only [InWindow, MaskParams.Seen, setParamsFusedFprop, MaskParams.isLocal,
    MaskParams.actualSeqlenK, Bool.and_eq_true, Bool.or_eq_true, decide_eq_true_eq,
    Bool.not_eq_true', decide_eq_false_iff_not]
  -- Which ends are open decides whether the mask is causal, a window or absent.
  split_ifs <;> grind

end VAttention.Pod
