import Mathlib.LinearAlgebra.Matrix.Notation
import VAttention.Lib.Mat

/-!
# Layout and sharding of linear weights

Checkpoints store a linear weight as `[out, in]`; the DeepSeek-V2 scaffold multiplies with
`[in, out]` matrices of which each tensor-parallel rank holds one shard.
`_coerce_and_slice_tensor_parallel_linear_weight` gets from one to the other by looking at
shapes only: first against the shape of the rank's own shard, then against the shape of the
whole matrix.

For a matrix that is not square the shapes decide the layout, and every rank gets its shard
of the transpose.  A square matrix has the expected shape already, whatever its layout, so it
is never transposed: there the result is the transpose only if the matrix is symmetric.
-/

namespace VAttention.Weights

open VAttention.Lib

variable {α : Type}

/-- A tensor of a checkpoint: a matrix, or a tensor of another number of dimensions with its
    entries in row-major order. -/
inductive Tensor (α : Type) where
  | matrix (m : Mat α)
  | other (shape : List Nat) (hndim : shape.length ≠ 2) (entries : List α)
deriving DecidableEq

/-- Tensor-parallel group of a rank. -/
structure TensorParallel where
  /-- `self.model.tensor_parallel_world_size` -/
  worldSize : Nat
  /-- `_get_tensor_model_parallel_rank()`, 0 where the group is not initialised -/
  rank : Nat
deriving DecidableEq, Repr

/-- `_coerce_linear_weight_layout` on a tensor of two dimensions. -/
def coerceMatrixLayout (tensor : Mat α) (expectedShape : List Nat) : Mat α :=
  if tensor.shape = expectedShape then tensor
  else if tensor.t.shape = expectedShape then tensor.t
  else tensor

/-- `_coerce_linear_weight_layout` -/
def coerceLinearWeightLayout (tensor : Option (Tensor α)) (expectedShape : List Nat) :
    Option (Tensor α) :=
  match tensor with
  | some (.matrix tensor) => some (.matrix (coerceMatrixLayout tensor expectedShape))
  | tensor => tensor

/-- `expected_global_shape`: the extent along the sharded dimension times the group size. -/
def expectedGlobalShape (tp : TensorParallel) (expectedLocalShape : Nat × Nat) : Dim → List Nat
  | .rows => [expectedLocalShape.1 * tp.worldSize, expectedLocalShape.2]
  | .cols => [expectedLocalShape.1, expectedLocalShape.2 * tp.worldSize]

/-- `expected_local_shape[shard_dim]` -/
def shardSize (expectedLocalShape : Nat × Nat) : Dim → Nat
  | .rows => expectedLocalShape.1
  | .cols => expectedLocalShape.2

/-- `_coerce_and_slice_tensor_parallel_linear_weight` on a tensor of two dimensions. -/
def coerceAndSliceMatrix (tp : TensorParallel) (tensor : Mat α) (expectedLocalShape : Nat × Nat)
    (shardDim : Dim) : Mat α :=
  let localShape := [expectedLocalShape.1, expectedLocalShape.2]
  let tensor := coerceMatrixLayout tensor localShape
  if tensor.shape = localShape then tensor
  else
    let globalShape := expectedGlobalShape tp expectedLocalShape shardDim
    let tensor := coerceMatrixLayout tensor globalShape
    if tensor.shape ≠ globalShape then tensor
    else
      let shardSize := shardSize expectedLocalShape shardDim
      let shardStart := tp.rank * shardSize
      tensor.slice shardDim shardStart (shardStart + shardSize)

/-- `_coerce_and_slice_tensor_parallel_linear_weight`; `shard_dim` 0 is `Dim.rows`, 1 is
    `Dim.cols`. -/
def coerceAndSliceTensorParallelLinearWeight (tp : TensorParallel) (tensor : Option (Tensor α))
    (expectedLocalShape : Nat × Nat) (shardDim : Dim) : Option (Tensor α) :=
  match tensor with
  | some (.matrix tensor) =>
    some (.matrix (coerceAndSliceMatrix tp tensor expectedLocalShape shardDim))
  | tensor => tensor

/-! ## What a rank should get -/

/-- Shape `[in, out]` of one shard of the transpose of a checkpoint matrix. -/
def localShape (W : Mat α) (worldSize : Nat) : Dim → Nat × Nat
  | .rows => (W.cols / worldSize, W.rows)
  | .cols => (W.cols, W.rows / worldSize)

/-- The contiguous part of a matrix that belongs to one rank. -/
def shard (m : Mat α) (dim : Dim) (tp : TensorParallel) : Mat α :=
  let width := m.size dim / tp.worldSize
  m.slice dim (tp.rank * width) (tp.rank * width + width)

/-- Every rank gets its shard of the transpose of the checkpoint matrix, and together the
    shards are the transpose. -/
structure LoadsTranspose (W : Mat α) (worldSize : Nat) (dim : Dim) : Prop where
  shards : ∀ rank < worldSize,
    coerceAndSliceTensorParallelLinearWeight ⟨worldSize, rank⟩ (some (.matrix W))
      (localShape W worldSize dim) dim = some (.matrix (shard W.t dim ⟨worldSize, rank⟩))
  whole : ∃ results : List (Mat α),
    ((List.range worldSize).map fun rank =>
      coerceAndSliceTensorParallelLinearWeight ⟨worldSize, rank⟩ (some (.matrix W))
        (localShape W worldSize dim) dim) = results.map (fun m => some (.matrix m)) ∧
    Mat.cat dim results = some W.t

/-! ## What the code returns -/

theorem coerceMatrixLayout_of_ne {m : Mat α} {shape : List Nat} (h : m.shape ≠ shape)
    (ht : m.t.shape ≠ shape) : coerceMatrixLayout m shape = m := by
  rw [coerceMatrixLayout, if_neg h, if_neg ht]

/-- The layout the shapes suggest for a checkpoint matrix: a square one is taken as it is. -/
def inferredLayout (W : Mat α) : Mat α := if W.rows = W.cols then W else W.t

theorem size_inferredLayout (W : Mat α) (dim : Dim) :
    (inferredLayout W).size dim = W.t.size dim := by
  unfold inferredLayout
  split
  · next hsquare => cases dim <;> simp [Mat.size, hsquare]
  · rfl

theorem shape_inferredLayout (W : Mat α) : (inferredLayout W).shape = [W.cols, W.rows] := by
  unfold inferredLayout
  split
  · next hsquare => simp [Mat.shape, hsquare]
  · rfl

/-- Against the shape of the whole transpose, the inferred layout is what comes out. -/
theorem coerceMatrixLayout_global (W : Mat α) :
    coerceMatrixLayout W [W.cols, W.rows] = inferredLayout W := by
  unfold coerceMatrixLayout inferredLayout
  by_cases hsquare : W.rows = W.cols
  · simp [Mat.shape, hsquare]
  · simp [Mat.shape, hsquare]

section Shards

variable {W : Mat α} {worldSize rank : Nat} {dim : Dim}

/-- With more than one rank no layout of the whole matrix has the shape of a shard. -/
theorem localShape_ne (dim : Dim) (hrows : 0 < W.rows) (hcols : 0 < W.cols)
    (hsize : 1 < worldSize) :
    W.shape ≠ [(localShape W worldSize dim).1, (localShape W worldSize dim).2] ∧
    W.t.shape ≠ [(localShape W worldSize dim).1, (localShape W worldSize dim).2] := by
  have hrows' := Nat.div_lt_self hrows hsize
  have hcols' := Nat.div_lt_self hcols hsize
  cases dim with
  | rows =>
    simp only [Mat.shape, Mat.rows_t, Mat.cols_t, localShape, ne_eq, List.cons.injEq, and_true]
    omega
  | cols =>
    simp only [Mat.shape, Mat.rows_t, Mat.cols_t, localShape, ne_eq, List.cons.injEq, and_true]
    omega

theorem expectedGlobalShape_localShape (hdvd : worldSize ∣ W.t.size dim) :
    expectedGlobalShape ⟨worldSize, rank⟩ (localShape W worldSize dim) dim = [W.cols, W.rows] := by
  cases dim with
  | rows =>
    have hcols : W.cols / worldSize * worldSize = W.cols := Nat.div_mul_cancel hdvd
    simp only [expectedGlobalShape, localShape, hcols]
  | cols =>
    have hrows : W.rows / worldSize * worldSize = W.rows := Nat.div_mul_cancel hdvd
    simp only [expectedGlobalShape, localShape, hrows]

theorem shardSize_localShape :
    shardSize (localShape W worldSize dim) dim = W.t.size dim / worldSize := by
  cases dim <;> rfl

/-- **What a rank gets**: its shard of the inferred layout. -/
theorem coerceAndSliceMatrix_eq (hrows : 0 < W.rows) (hcols : 0 < W.cols)
    (hrank : rank < worldSize) (hdvd : worldSize ∣ W.t.size dim) :
    coerceAndSliceMatrix ⟨worldSize, rank⟩ W (localShape W worldSize dim) dim =
      shard (inferredLayout W) dim ⟨worldSize, rank⟩ := by
  simp only [coerceAndSliceMatrix, shard, size_inferredLayout]
  by_cases hone : worldSize = 1
  · -- a single rank: the shape of the shard is that of the whole transpose
    obtain rfl : rank = 0 := by omega
    have hlocal : [(localShape W worldSize dim).1, (localShape W worldSize dim).2] =
        [W.cols, W.rows] := by
      cases dim <;> simp [localShape, hone]
    rw [hlocal, coerceMatrixLayout_global, if_pos (shape_inferredLayout W), hone, Nat.div_one,
      Nat.zero_mul, Nat.zero_add, ← size_inferredLayout]
    exact (Mat.slice_full dim _).symm
  · -- several ranks: nothing has the shape of the shard, the whole matrix is cut
    obtain ⟨hne, hnet⟩ := localShape_ne dim hrows hcols (show 1 < worldSize by omega)
    rw [coerceMatrixLayout_of_ne hne hnet, if_neg hne, expectedGlobalShape_localShape hdvd,
      coerceMatrixLayout_global, if_neg (not_not_intro (shape_inferredLayout W)),
      shardSize_localShape]

/-- The shards of the ranks concatenate to the matrix. -/
theorem cat_shards (m : Mat α) (hpos : 0 < worldSize) (hdvd : worldSize ∣ m.size dim) :
    Mat.cat dim ((List.range worldSize).map fun rank => shard m dim ⟨worldSize, rank⟩) =
      some m := by
  have hwidth : worldSize * (m.size dim / worldSize) = m.size dim := Nat.mul_div_cancel' hdvd
  simp only [shard]
  rw [Mat.cat_slices hpos (Nat.le_of_eq hwidth), hwidth, Mat.slice_full]

/-- What the ranks get together is the inferred layout. -/
theorem exists_results (hrows : 0 < W.rows) (hcols : 0 < W.cols) (hpos : 0 < worldSize)
    (hdvd : worldSize ∣ W.t.size dim) :
    ∃ results : List (Mat α),
      ((List.range worldSize).map fun rank =>
        coerceAndSliceTensorParallelLinearWeight ⟨worldSize, rank⟩ (some (.matrix W))
          (localShape W worldSize dim) dim) = results.map (fun m => some (.matrix m)) ∧
      Mat.cat dim results = some (inferredLayout W) := by
  refine ⟨(List.range worldSize).map fun rank => shard (inferredLayout W) dim ⟨worldSize, rank⟩,
    ?_, ?_⟩
  · rw [List.map_map]
    refine List.map_congr_left fun rank hrank => ?_
    simp only [coerceAndSliceTensorParallelLinearWeight, Function.comp_apply,
      coerceAndSliceMatrix_eq hrows hcols (List.mem_range.mp hrank) hdvd]
  · exact cat_shards _ hpos (by rwa [size_inferredLayout])

/-- **The loader transposes and shards a checkpoint matrix exactly where the matrix is not
    square or is symmetric.** -/
theorem loadsTranspose_iff (hrows : 0 < W.rows) (hcols : 0 < W.cols) (hpos : 0 < worldSize)
    (hdvd : worldSize ∣ W.t.size dim) :
    LoadsTranspose W worldSize dim ↔ W.rows ≠ W.cols ∨ W.t = W := by
  obtain ⟨results, hresults, hcat⟩ := exists_results hrows hcols hpos hdvd
  constructor
  · intro hloads
    by_cases hsquare : W.rows = W.cols
    · -- the shards of a square matrix make up the matrix itself
      obtain ⟨results', hresults', hcat'⟩ := hloads.whole
      have hsame : results = results' := by
        refine List.map_injective_iff.mpr ?_ (hresults.symm.trans hresults')
        intro m m' hm
        simpa using hm
      rw [hsame, hcat'] at hcat
      right
      simpa [inferredLayout, hsquare] using hcat
    · exact .inl hsquare
  · intro hcond
    have hlayout : inferredLayout W = W.t := by
      rcases hcond with hne | hsymm
      · exact if_neg hne
      · rw [inferredLayout, hsymm, ite_self]
    refine ⟨fun rank hrank => ?_, results, hresults, hlayout ▸ hcat⟩
    simp only [coerceAndSliceTensorParallelLinearWeight,
      coerceAndSliceMatrix_eq hrows hcols hrank hdvd, hlayout]

end Shards

/-- A square weight that is not symmetric. -/
def squareWeight : Mat Nat := ⟨2, 2, !![1, 2; 3, 4]⟩

/-- On a single rank the square weight is loaded as it is in the checkpoint; on two ranks
    each gets a slice of it, not of its transpose. -/
theorem squareWeight_not_transposed :
    ¬ LoadsTranspose squareWeight 1 .cols ∧ ¬ LoadsTranspose squareWeight 2 .rows := by
  refine ⟨fun h => ?_, fun h => ?_⟩
  · exact absurd (h.shards 0 (by decide)) (by decide)
  · exact absurd (h.shards 0 (by decide)) (by decide)

/-- A weight of another height than width is loaded as its transpose, here on two ranks. -/
theorem wideWeight_transposed :
    LoadsTranspose (⟨2, 3, !![1, 2, 3; 4, 5, 6]⟩ : Mat Nat) 2 .cols :=
  (loadsTranspose_iff (by decide) (by decide) (by decide) (by decide)).mpr (.inl (by decide))

end VAttention.Weights
