import Mathlib.Algebra.BigOperators.Fin
import Mathlib.LinearAlgebra.Matrix.Notation
import Mathlib.Logic.Equiv.Fin.Basic
import Mathlib.Tactic.Ring

/-!
# Blocks of vectors and matrices

Block `r` of width `w` of a vector has the entries `r * w`, …, `r * w + w - 1`.  A vector times the
column block of a matrix is the block of the product; the products of the blocks of a vector with
the row blocks of a matrix add up to the product.  A vector of length `n * d` can also be read as
`n` groups of `d` entries; blocks of whole groups are blocks of groups.
-/

namespace VAttention.Lib.Blocks

open Matrix

variable {R M ι : Type} {n t w r d : Nat}

/-- Entry `j` of block `r`. -/
def blockIndex (h : (r + 1) * w ≤ n) (j : Fin w) : Fin n :=
  ⟨r * w + j, by
    rw [Nat.succ_mul] at h
    omega⟩

@[simp] theorem val_blockIndex (h : (r + 1) * w ≤ n) (j : Fin w) :
    (blockIndex h j : Nat) = r * w + j := rfl

/-- Block `r` of a vector. -/
def block (h : (r + 1) * w ≤ n) (v : Fin n → R) : Fin w → R := fun j => v (blockIndex h j)

/-- The columns of block `r` of a matrix. -/
def colBlock (h : (r + 1) * w ≤ n) (W : Matrix ι (Fin n) R) : Matrix ι (Fin w) R :=
  W.submatrix id (blockIndex h)

/-- The rows of block `r` of a matrix. -/
def rowBlock (h : (r + 1) * w ≤ n) (W : Matrix (Fin n) ι R) : Matrix (Fin w) ι R :=
  W.submatrix (blockIndex h) id

/-- `t` blocks of width `w` fit into their total width. -/
theorem block_le (hn : t * w = n) (r : Fin t) : (r + 1 : Nat) * w ≤ n :=
  hn ▸ Nat.mul_le_mul_right w r.isLt

/-! ## Products -/

/-- Every entry is in one block. -/
theorem sum_blocks [AddCommMonoid M] (hn : t * w = n) (f : Fin n → M) :
    ∑ r : Fin t, ∑ j : Fin w, f (blockIndex (block_le hn r) j) = ∑ k, f k := by
  subst hn
  rw [← Fintype.sum_prod_type', ← finProdFinEquiv.sum_comp]
  refine Finset.sum_congr rfl fun p _ => congrArg f (Fin.ext ?_)
  simp only [val_blockIndex, finProdFinEquiv_apply_val]
  ring

section Products

variable [NonUnitalNonAssocSemiring R] {κ : Type}

theorem vecMul_colBlock [Fintype ι] (h : (r + 1) * w ≤ n) (v : ι → R) (W : Matrix ι (Fin n) R) :
    v ᵥ* colBlock h W = block h (v ᵥ* W) := rfl

/-- **The products of the blocks add up to the product.** -/
theorem sum_block_vecMul_rowBlock (hn : t * w = n) (v : Fin n → R) (W : Matrix (Fin n) κ R) :
    ∑ r : Fin t, block (block_le hn r) v ᵥ* rowBlock (block_le hn r) W = v ᵥ* W := by
  ext k
  rw [Finset.sum_apply]
  exact sum_blocks hn fun i => v i * W i k

/-- Products over no entries are zero. -/
theorem block_vecMul_rowBlock_of_eq_zero (h : (r + 1) * w ≤ n) (hn : n = 0) (v : Fin n → R)
    (W : Matrix (Fin n) κ R) : block h v ᵥ* rowBlock h W = v ᵥ* W := by
  subst hn
  obtain rfl : w = 0 := by simpa using h
  rw [empty_vecMul, empty_vecMul]

end Products

/-! ## Groups -/

/-- A vector as `n` groups of `d` entries. -/
def group (v : Fin (n * d) → R) (i : Fin n) : Fin d → R := fun j => v (finProdFinEquiv (i, j))

/-- The groups one after another. -/
def ungroup (g : Fin n → Fin d → R) : Fin (n * d) → R :=
  fun k => g (finProdFinEquiv.symm k).1 (finProdFinEquiv.symm k).2

@[simp] theorem ungroup_apply (g : Fin n → Fin d → R) (i : Fin n) (j : Fin d) :
    ungroup g (finProdFinEquiv (i, j)) = g i j := by
  simp only [ungroup, Equiv.symm_apply_apply]

variable (h : (r + 1) * w ≤ n) (h' : (r + 1) * (w * d) ≤ n * d)

theorem blockIndex_finProdFinEquiv (i : Fin w) (j : Fin d) :
    blockIndex h' (finProdFinEquiv (i, j)) = finProdFinEquiv (blockIndex h i, j) := by
  apply Fin.ext
  simp only [val_blockIndex, finProdFinEquiv_apply_val]
  ring

/-- A group of a block is a group of the vector. -/
theorem group_block (v : Fin (n * d) → R) (i : Fin w) :
    group (block h' v) i = group v (blockIndex h i) := by
  ext j
  exact congrArg v (blockIndex_finProdFinEquiv h h' i j)

theorem block_ungroup (g : Fin n → Fin d → R) :
    block h' (ungroup g) = ungroup fun i => g (blockIndex h i) := by
  ext k
  obtain ⟨⟨i, j⟩, rfl⟩ := finProdFinEquiv.surjective k
  rw [ungroup_apply, block, blockIndex_finProdFinEquiv h h', ungroup_apply]

/-! ## Counting blocks

Division that truncates, as in C++.  Against a natural bound it is not seen that a negative
quotient is rounded up. -/

theorem tdiv_le_iff {a b n : Int} (hb : 0 < b) (hn : 0 ≤ n) :
    a.tdiv b ≤ n ↔ a < (n + 1) * b := by
  rcases le_or_gt 0 a with ha | ha
  · rw [Int.tdiv_eq_ediv_of_nonneg ha, ← Int.lt_add_one_iff, Int.ediv_lt_iff_lt_mul hb]
  · have hquot : a.tdiv b ≤ 0 := by
      have hneg : (-a).tdiv b = -(a.tdiv b) := Int.neg_tdiv a b
      have hnonneg : 0 ≤ (-a).tdiv b := Int.tdiv_nonneg (by omega) hb.le
      omega
    have hprod : 0 ≤ (n + 1) * b := Int.mul_nonneg (by omega) hb.le
    exact iff_of_true (hquot.trans hn) (ha.trans_le hprod)

/-- Blocks of width `b` that cover `a` entries (`ceil_div`). -/
def ceilDiv (a b : Int) : Int := (a + b - 1).tdiv b

theorem lt_ceilDiv_iff {a b n : Int} (hb : 0 < b) (hn : 0 ≤ n) :
    n < ceilDiv a b ↔ n * b < a := by
  rw [← not_le, ceilDiv, tdiv_le_iff hb hn, Int.add_mul, Int.one_mul]
  omega

end VAttention.Lib.Blocks
