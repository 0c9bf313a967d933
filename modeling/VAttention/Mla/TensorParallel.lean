import VAttention.Mla.Layer
import VAttention.Weights.Layout

/-!
# Tensor parallelism of the decoder layer

The loader gives rank `r` of `t` the columns of its heads of the query and `kv_up_proj`
projections, the matching rows of `o_proj`, and for every MLP the columns of `gate_proj` and
`up_proj` and the rows of `down_proj` of its part of the intermediate size.  The results of the
ranks then add up to the result of the whole layer, both for attention and for the MLPs.

The layer never adds them up.  Each rank puts its own part into the residual stream, so the ranks
agree with the unsharded layer only if there is one rank, or nothing to tell apart.
-/

namespace VAttention.Mla

open Matrix VAttention.Lib VAttention.Lib.Blocks

variable {R : Type} {dims : MlaDims} {n t : Nat}

/-! ## Shards -/

/-- The part of a rank ends before the whole does. -/
theorem shard_le (r : Fin t) (n : Nat) : (r + 1 : Nat) * (n / t) ≤ n :=
  (Nat.mul_le_mul_right _ r.isLt).trans (Nat.mul_div_le n t)

theorem shard_heads_le (r : Fin t) (n d : Nat) : (r + 1 : Nat) * (n / t * d) ≤ n * d := by
  rw [← Nat.mul_assoc]
  exact Nat.mul_le_mul_right d (shard_le r n)

/-- The heads of rank `r`. -/
def QueryProjection.shard (query : QueryProjection R dims n) (r : Fin t) :
    QueryProjection R dims (n / t) :=
  match query with
  | .direct qProj => .direct (colBlock (shard_heads_le r n _) qProj)
  | .lowRank rank qAProj qALayernorm qBProj =>
    .lowRank rank qAProj qALayernorm (colBlock (shard_heads_le r n _) qBProj)

/-- The projection weights of rank `r`. -/
def ProjectionWeights.shard (weights : ProjectionWeights R dims n) (r : Fin t) :
    ProjectionWeights R dims (n / t) where
  query := weights.query.shard r
  kvLatentProj := weights.kvLatentProj
  kvALayernorm := weights.kvALayernorm
  kRopeProj := weights.kRopeProj
  kvUpProj := colBlock (shard_heads_le r n _) weights.kvUpProj
  oProj := rowBlock (shard_heads_le r n _) weights.oProj

section Blocks

variable {hiddenSize intermediateSize numExperts moeSize sharedSize : Nat}

/-- The MLP weights of rank `r`. -/
def MlpWeights.shard (weights : MlpWeights R hiddenSize intermediateSize) (r : Fin t) :
    MlpWeights R hiddenSize (intermediateSize / t) where
  gateProj := colBlock (shard_le r intermediateSize) weights.gateProj
  upProj := colBlock (shard_le r intermediateSize) weights.upProj
  downProj := rowBlock (shard_le r intermediateSize) weights.downProj

/-- The weights of the experts of rank `r`: a part of every expert, and the whole router. -/
def MoeWeights.shard (weights : MoeWeights R hiddenSize numExperts moeSize sharedSize)
    (r : Fin t) : MoeWeights R hiddenSize numExperts (moeSize / t) (sharedSize / t) where
  gate := weights.gate
  experts := fun e => (weights.experts e).shard r
  sharedExperts := weights.sharedExperts.map fun shared => shared.shard r
  topK := weights.topK
  normTopkProb := weights.normTopkProb
  topK_pos := weights.topK_pos
  topK_le := weights.topK_le

end Blocks

/-- The sizes of one of `t` ranks. -/
abbrev LayerSizes.perRank (sizes : LayerSizes) (t : Nat) : LayerSizes where
  numHeads := sizes.numHeads / t
  intermediateSize := sizes.intermediateSize / t
  numExperts := sizes.numExperts
  moeSize := sizes.moeSize / t
  sharedSize := sizes.sharedSize / t

/-- `t` divides every size that is sharded, as `from_config` and the loader demand. -/
structure LayerSizes.DividedBy (sizes : LayerSizes) (t : Nat) : Prop where
  numHeads : t ∣ sizes.numHeads
  intermediateSize : t ∣ sizes.intermediateSize
  moeSize : t ∣ sizes.moeSize
  sharedSize : t ∣ sizes.sharedSize

/-- No weight has a row or a column to shard. -/
structure LayerSizes.NothingSharded (sizes : LayerSizes) (dims : MlaDims) : Prop where
  attention : sizes.numHeads * dims.vHeadDim = 0
  mlp : sizes.intermediateSize = 0
  moe : sizes.numExperts = 0 ∨ sizes.moeSize = 0 ∧ sizes.sharedSize = 0

/-- The weights of a layer that rank `r` of `t` holds. -/
def LayerWeights.shard {sizes : LayerSizes} (weights : LayerWeights R dims sizes) (r : Fin t) :
    LayerWeights R dims (sizes.perRank t) where
  projection := weights.projection.shard r
  mlp := weights.mlp.map fun mlp => mlp.shard r
  moe := weights.moe.map fun moe => moe.shard r

/-- The slice of a rank is not cut at the end of the matrix. -/
theorem shard_width (r : Fin t) (n : Nat) :
    min (r * (n / t) + n / t) n - r * (n / t) = n / t := by
  have hle := shard_le r n
  rw [Nat.succ_mul] at hle
  rw [Nat.min_eq_left hle, Nat.add_sub_cancel_left]

/-- A column block is what the loader slices for a weight that is sharded along its columns. -/
theorem shard_cols_eq {m : Nat} (W : Matrix (Fin m) (Fin n) R) (r : Fin t) :
    Weights.shard ⟨m, n, W⟩ .cols ⟨t, r⟩ = ⟨m, n / t, colBlock (shard_le r n) W⟩ :=
  Mat.ext_entries rfl (shard_width r n) fun _ _ _ _ => rfl

/-- A row block is what the loader slices for a weight that is sharded along its rows. -/
theorem shard_rows_eq {m : Nat} (W : Matrix (Fin n) (Fin m) R) (r : Fin t) :
    Weights.shard ⟨n, m, W⟩ .rows ⟨t, r⟩ = ⟨n / t, m, rowBlock (shard_le r n) W⟩ :=
  Mat.ext_entries (shard_width r n) rfl fun _ _ _ _ => rfl

/-! ## What a rank computes -/

section Ranks

variable [CommRing R]

/-- The rows of attention before `o_proj`. -/
def contiguousRows (attend : Attend R dims) (weights : ProjectionWeights R dims n)
    (hiddenStates : Rows R dims.hiddenSize) (cache : Option (ResidentCache R dims)) :
    Rows R (n * dims.vHeadDim) :=
  hiddenStates.zipIdx.map fun (x, i) =>
    attendRow attend weights.kvUpProj
      (appendResidentCache cache (projectMlaFromHiddenStates weights hiddenStates).2)
      (weights.query.apply x) (pastLen cache + i)

theorem forwardHiddenStatesContiguous_eq (attend : Attend R dims)
    (weights : ProjectionWeights R dims n) (hiddenStates : Rows R dims.hiddenSize)
    (cache : Option (ResidentCache R dims)) :
    forwardHiddenStatesContiguous attend weights hiddenStates cache =
      ((contiguousRows attend weights hiddenStates cache).map fun row => row ᵥ* weights.oProj,
        appendResidentCache cache (projectMlaFromHiddenStates weights hiddenStates).2) := by
  simp only [forwardHiddenStatesContiguous, contiguousMlaAttentionForward_eq]
  simp only [projectMlaFromHiddenStates, contiguousRows, List.zipIdx_map, List.map_map]
  rfl

/-- The rows an attention wrapper returns. -/
def wrapperRows {KvCache : Type} (wrapper : HeadWrapper R dims KvCache)
    (weights : ProjectionWeights R dims n) (kvCache : KvCache)
    (hiddenStates : Rows R dims.hiddenSize) (cache : Option (ResidentCache R dims)) :
    Rows R (n * dims.vHeadDim) :=
  (List.range hiddenStates.length).map fun i => ungroup fun head =>
    wrapper kvCache cache (projectMlaFromHiddenStates weights hiddenStates).2
      (denseKv weights.kvUpProj head)
      (hiddenStates.map fun x => group (weights.query.apply x) head) i

theorem mlaAttentionWithWrapper_eq {KvCache : Type} (wrapper : HeadWrapper R dims KvCache)
    (weights : ProjectionWeights R dims n) (kvCache : KvCache)
    (hiddenStates : Rows R dims.hiddenSize) (cache : Option (ResidentCache R dims)) :
    mlaAttentionWithWrapper wrapper weights kvCache hiddenStates cache =
      ((wrapperRows wrapper weights kvCache hiddenStates cache).map fun row => row ᵥ* weights.oProj,
        appendResidentCache cache (projectMlaFromHiddenStates weights hiddenStates).2) := by
  simp only [mlaAttentionWithWrapper, joinQuery_splitQueryProjection]
  simp only [projectMlaFromHiddenStates, wrapperRows, List.map_map]
  rfl

variable (weights : ProjectionWeights R dims n) (r : Fin t)

theorem apply_shard (query : QueryProjection R dims n) (x : Row R dims.hiddenSize) :
    (query.shard r).apply x = block (shard_heads_le r n _) (query.apply x) := by
  cases query with
  | direct qProj => rfl
  | lowRank rank qAProj qALayernorm qBProj => rfl

/-- Latent and rope rows are not sharded: every rank caches the same rows. -/
theorem projectMlaFromHiddenStates_shard (hiddenStates : Rows R dims.hiddenSize) :
    (projectMlaFromHiddenStates (weights.shard r) hiddenStates).2 =
      (projectMlaFromHiddenStates weights hiddenStates).2 := rfl

/-- A head of a rank reconstructs the keys and values of that head of the whole layer. -/
theorem denseKv_shard (head : Fin (n / t)) :
    denseKv (weights.shard r).kvUpProj head =
      denseKv weights.kvUpProj (blockIndex (shard_le r n) head) := by
  funext latent rope
  simp only [denseKv, ProjectionWeights.shard, vecMul_colBlock,
    group_block (shard_le r n) (shard_heads_le r n _)]

theorem attendRow_shard (attend : Attend R dims) (cache : ResidentCache R dims)
    (query : Row R (n * dims.qHeadDim)) (position : Nat) :
    attendRow attend (weights.shard r).kvUpProj cache (block (shard_heads_le r n _) query)
        position =
      block (shard_heads_le r n _) (attendRow attend weights.kvUpProj cache query position) := by
  rw [attendRow, attendRow, block_ungroup (shard_le r n)]
  simp only [headKv, denseKv_shard, group_block (shard_le r n) (shard_heads_le r n _)]

/-- **Attention of a rank is its block** of the rows of the whole layer. -/
theorem contiguousRows_shard (attend : Attend R dims) (hiddenStates : Rows R dims.hiddenSize)
    (cache : Option (ResidentCache R dims)) :
    contiguousRows attend (weights.shard r) hiddenStates cache =
      (contiguousRows attend weights hiddenStates cache).map (block (shard_heads_le r n _)) := by
  rw [contiguousRows, contiguousRows, List.map_map]
  refine List.map_congr_left fun p _ => ?_
  show attendRow attend _ _ ((weights.query.shard r).apply p.1) _ = _
  rw [apply_shard, attendRow_shard, projectMlaFromHiddenStates_shard]
  rfl

theorem wrapperRows_shard {KvCache : Type} (wrapper : HeadWrapper R dims KvCache)
    (kvCache : KvCache) (hiddenStates : Rows R dims.hiddenSize)
    (cache : Option (ResidentCache R dims)) :
    wrapperRows wrapper (weights.shard r) kvCache hiddenStates cache =
      (wrapperRows wrapper weights kvCache hiddenStates cache).map
        (block (shard_heads_le r n _)) := by
  rw [wrapperRows, wrapperRows, List.map_map]
  refine List.map_congr_left fun i _ => ?_
  rw [Function.comp_apply, block_ungroup (shard_le r n)]
  refine congrArg ungroup (funext fun head => ?_)
  rw [denseKv_shard, projectMlaFromHiddenStates_shard]
  show wrapper _ _ _ _
    (hiddenStates.map fun x => group ((weights.query.shard r).apply x) head) _ = _
  simp only [apply_shard, group_block (shard_le r n) (shard_heads_le r n _)]

/-! ## The parts of the ranks add up -/

section Sums

variable {hiddenSize intermediateSize numExperts moeSize sharedSize : Nat}

/-- The intermediate row of an MLP. -/
def mlpHidden (silu : R → R) (weights : MlpWeights R hiddenSize intermediateSize)
    (x : Row R hiddenSize) : Row R intermediateSize :=
  fun j => silu ((x ᵥ* weights.gateProj) j) * (x ᵥ* weights.upProj) j

theorem mlpRow_shard (silu : R → R) (weights : MlpWeights R hiddenSize intermediateSize)
    (r : Fin t) (x : Row R hiddenSize) :
    mlpRow silu (weights.shard r) x =
      block (shard_le r intermediateSize) (mlpHidden silu weights x) ᵥ*
        rowBlock (shard_le r intermediateSize) weights.downProj := rfl

/-- **The attention outputs of the ranks add up** to the output of the whole layer. -/
theorem sum_oProj_shard (hdvd : t ∣ n) (weights : ProjectionWeights R dims n)
    (row : Row R (n * dims.vHeadDim)) :
    ∑ r : Fin t, block (shard_heads_le r n _) row ᵥ* (weights.shard r).oProj =
      row ᵥ* weights.oProj := by
  have hn : t * (n / t * dims.vHeadDim) = n * dims.vHeadDim := by
    rw [← Nat.mul_assoc, Nat.mul_div_cancel' hdvd]
  exact sum_block_vecMul_rowBlock hn row weights.oProj

/-- **The MLP outputs of the ranks add up** to the output of the whole MLP. -/
theorem sum_mlpRow_shard (hdvd : t ∣ intermediateSize) (silu : R → R)
    (weights : MlpWeights R hiddenSize intermediateSize) (x : Row R hiddenSize) :
    ∑ r : Fin t, mlpRow silu (weights.shard r) x = mlpRow silu weights x := by
  simp only [mlpRow_shard]
  exact sum_block_vecMul_rowBlock (Nat.mul_div_cancel' hdvd) _ _

/-- **The outputs of the experts of the ranks add up** to the output of the whole mixture. -/
theorem sum_moeRow_shard (hmoe : t ∣ moeSize) (hshared : t ∣ sharedSize) (silu : R → R)
    (route : Route R numExperts)
    (weights : MoeWeights R hiddenSize numExperts moeSize sharedSize) (x : Row R hiddenSize) :
    ∑ r : Fin t, moeRow silu route (weights.shard r) x = moeRow silu route weights x := by
  have hexperts : ∀ chosen : List (Fin numExperts × R),
      ∑ r : Fin t, ∑ e, expertProb chosen e • mlpRow silu ((weights.experts e).shard r) x =
        ∑ e, expertProb chosen e • mlpRow silu (weights.experts e) x := by
    intro chosen
    rw [Finset.sum_comm]
    refine Finset.sum_congr rfl fun e _ => ?_
    rw [← Finset.smul_sum, sum_mlpRow_shard hmoe]
  cases heq : weights.sharedExperts with
  | none =>
    simp only [moeRow, MoeWeights.shard, heq, Option.map_none]
    exact hexperts _
  | some shared =>
    simp only [moeRow, MoeWeights.shard, heq, Option.map_some, Finset.sum_add_distrib]
    rw [hexperts, sum_mlpRow_shard hshared]

end Sums

/-! ## When the part of a rank is the whole -/

variable {sizes : LayerSizes}

/-- What rank `r` adds to the residual stream is what the unsharded layer adds. -/
structure PartIsWhole (weights : LayerWeights R dims sizes) (r : Fin t) : Prop where
  attention : ∀ row, block (shard_heads_le r sizes.numHeads dims.vHeadDim) row ᵥ*
    (weights.projection.shard r).oProj = row ᵥ* weights.projection.oProj
  mlp : ∀ silu, ∀ mlp ∈ weights.mlp, mlpRow silu (mlp.shard r) = mlpRow silu mlp
  moe : ∀ silu route, ∀ moe ∈ weights.moe,
    moeRow silu route (moe.shard r) = moeRow silu route moe

variable {weights : LayerWeights R dims sizes} {r : Fin t}

theorem PartIsWhole.contiguous (h : PartIsWhole weights r) (attend : Attend R dims)
    (hiddenStates : Rows R dims.hiddenSize) (cache : Option (ResidentCache R dims)) :
    forwardHiddenStatesContiguous attend (weights.projection.shard r) hiddenStates cache =
      forwardHiddenStatesContiguous attend weights.projection hiddenStates cache := by
  rw [forwardHiddenStatesContiguous_eq, forwardHiddenStatesContiguous_eq, contiguousRows_shard,
    List.map_map, projectMlaFromHiddenStates_shard]
  exact congrArg (·, _) (List.map_congr_left fun row _ => h.attention row)

theorem PartIsWhole.wrapper (h : PartIsWhole weights r) {KvCache : Type}
    (wrapper : HeadWrapper R dims KvCache) (kvCache : KvCache)
    (hiddenStates : Rows R dims.hiddenSize) (cache : Option (ResidentCache R dims)) :
    mlaAttentionWithWrapper wrapper (weights.projection.shard r) kvCache hiddenStates cache =
      mlaAttentionWithWrapper wrapper weights.projection kvCache hiddenStates cache := by
  rw [mlaAttentionWithWrapper_eq, mlaAttentionWithWrapper_eq, wrapperRows_shard,
    List.map_map, projectMlaFromHiddenStates_shard]
  exact congrArg (·, _) (List.map_congr_left fun row _ => h.attention row)

/-- The layer around its attention. -/
theorem PartIsWhole.layerForward (h : PartIsWhole weights r)
    (functions : LayerFunctions R dims sizes.numExperts)
    (attention : Rows R dims.hiddenSize → Rows R dims.hiddenSize × ResidentCache R dims)
    (hiddenStates : Rows R dims.hiddenSize) :
    layerForward (weights.shard r) functions attention hiddenStates =
      layerForward weights functions attention hiddenStates := by
  have hmlp := h.mlp functions.silu
  have hmoe := h.moe functions.silu functions.route
  simp only [Mla.layerForward, LayerWeights.shard, Option.isSome_map]
  cases hm : weights.mlp with
  | some mlp =>
    simp only [Option.map_some, applyMlp]
    rw [hmlp mlp hm]
  | none =>
    cases he : weights.moe with
    | some moe =>
      simp only [Option.map_some, Option.map_none, applyMoe_eq]
      rw [hmoe moe he]
    | none => rfl

/-- With one rank the only part is the sum of the parts. -/
theorem partIsWhole_of_eq_one (hsizes : sizes.DividedBy t) (ht : t = 1) (r : Fin t) :
    PartIsWhole weights r := by
  subst ht
  constructor
  · intro row
    rw [← sum_oProj_shard hsizes.numHeads, Fintype.sum_subsingleton _ r]
  · intro silu mlp _
    funext x
    rw [← sum_mlpRow_shard hsizes.intermediateSize, Fintype.sum_subsingleton _ r]
  · intro silu route moe _
    funext x
    rw [← sum_moeRow_shard hsizes.moeSize hsizes.sharedSize, Fintype.sum_subsingleton _ r]

/-- With at most one hidden row there is nothing to tell apart. -/
theorem partIsWhole_of_subsingleton (h : Subsingleton (Row R dims.hiddenSize)) (r : Fin t) :
    PartIsWhole weights r where
  attention _ := Subsingleton.elim _ _
  mlp _ _ _ := Subsingleton.elim _ _
  moe _ _ _ _ := Subsingleton.elim _ _

theorem mlpRow_shard_of_eq_zero {hiddenSize intermediateSize : Nat} (h : intermediateSize = 0)
    (silu : R → R) (weights : MlpWeights R hiddenSize intermediateSize) (r : Fin t) :
    mlpRow silu (weights.shard r) = mlpRow silu weights := by
  funext x
  rw [mlpRow_shard, block_vecMul_rowBlock_of_eq_zero _ h]
  rfl

/-- Where every sharded size is zero, attention and the MLPs return zero on every rank. -/
theorem partIsWhole_of_nothingSharded (h : sizes.NothingSharded dims) (r : Fin t) :
    PartIsWhole weights r := by
  constructor
  · exact fun row => block_vecMul_rowBlock_of_eq_zero _ h.attention row _
  · exact fun silu mlp _ => mlpRow_shard_of_eq_zero h.mlp silu mlp r
  · intro silu route moe _
    rcases h.moe with hexperts | ⟨hmoe, hshared⟩
    · -- there are no experts, so no such weights
      exact absurd (moe.topK_pos.trans_le moe.topK_le) (by simp [hexperts])
    · funext x
      cases heq : moe.sharedExperts with
      | none => simp only [moeRow, MoeWeights.shard, heq, Option.map_none,
          mlpRow_shard_of_eq_zero hmoe]
      | some shared => simp only [moeRow, MoeWeights.shard, heq, Option.map_some,
          mlpRow_shard_of_eq_zero hmoe, mlpRow_shard_of_eq_zero hshared]

/-! ## The layer with and without shards -/

/-- Whatever the weights, the input and the functions that are not matrix products, the hidden
    states that each of `t` ranks carries out of the layer are those of the unsharded layer. -/
structure TensorParallelEquivalent (R : Type) [CommRing R] (dims : MlaDims) (sizes : LayerSizes)
    (t : Nat) : Prop where
  forward : ∀ (weights : LayerWeights R dims sizes)
    (functions : LayerFunctions R dims sizes.numExperts) (attend : Attend R dims)
    (hiddenStates : Rows R dims.hiddenSize) (cache : Option (ResidentCache R dims)) (r : Fin t),
    (forward (weights.shard r) functions attend hiddenStates cache).map Prod.fst =
      (forward weights functions attend hiddenStates cache).map Prod.fst
  wrapper : ∀ (KvCache : Type) (weights : LayerWeights R dims sizes)
    (functions : LayerFunctions R dims sizes.numExperts) (wrapper : HeadWrapper R dims KvCache)
    (kvCache : KvCache) (hiddenStates : Rows R dims.hiddenSize)
    (cache : Option (ResidentCache R dims)) (r : Fin t),
    (forwardWithAttentionWrapper (weights.shard r) functions wrapper kvCache hiddenStates
        cache).map Prod.fst =
      (forwardWithAttentionWrapper weights functions wrapper kvCache hiddenStates
        cache).map Prod.fst

theorem tensorParallelEquivalent_of_partIsWhole
    (h : ∀ (weights : LayerWeights R dims sizes) (r : Fin t), PartIsWhole weights r) :
    TensorParallelEquivalent R dims sizes t where
  forward weights functions attend hiddenStates cache r := by
    have hpart := h weights r
    simp only [Mla.forward, LayerWeights.shard, hpart.contiguous]
    exact congrArg _ (hpart.layerForward functions _ hiddenStates)
  wrapper KvCache weights functions wrapper kvCache hiddenStates cache r := by
    have hpart := h weights r
    simp only [forwardWithAttentionWrapper, LayerWeights.shard, hpart.wrapper]
    exact congrArg _ (hpart.layerForward functions _ hiddenStates)

/-! ## Weights that tell the ranks apart -/

/-- A matrix whose first row is one and whose other rows are zero: rank 0 holds all of it. -/
def firstRow (R : Type) [CommRing R] (m n : Nat) : Matrix (Fin m) (Fin n) R :=
  fun i _ => if i.val = 0 then 1 else 0

theorem one_vecMul_firstRow {m n : Nat} (hm : 0 < m) :
    (1 : Row R m) ᵥ* firstRow R m n = 1 := by
  obtain ⟨m, rfl⟩ := Nat.exists_eq_succ_of_ne_zero hm.ne'
  ext j
  simp [vecMul, dotProduct, firstRow]

/-- The ranks after the first get zeros. -/
theorem vecMul_rowBlock_firstRow {r w m n : Nat} (h : (r + 1) * w ≤ m) (hr : 0 < r) (hw : 0 < w)
    (v : Row R w) : v ᵥ* rowBlock h (firstRow R m n) = 0 := by
  have hzero : rowBlock h (firstRow R m n) = 0 := by
    ext i j
    have hne : r * w + i ≠ 0 := (Nat.add_pos_left (Nat.mul_pos hr hw) i).ne'
    exact if_neg hne
  rw [hzero, vecMul_zero]

/-- An MLP that sends the row of ones to itself and of which rank 0 holds the down projection. -/
def firstMlp (R : Type) [CommRing R] (hiddenSize intermediateSize : Nat) :
    MlpWeights R hiddenSize intermediateSize where
  gateProj := 0
  upProj := firstRow R hiddenSize intermediateSize
  downProj := firstRow R intermediateSize hiddenSize

theorem mlpRow_firstMlp {hiddenSize intermediateSize : Nat} (hhidden : 0 < hiddenSize)
    (hsize : 0 < intermediateSize) :
    mlpRow (fun _ => 1) (firstMlp R hiddenSize intermediateSize) 1 = 1 := by
  simp only [mlpRow, firstMlp, one_vecMul_firstRow hhidden, Pi.one_apply, one_mul]
  exact one_vecMul_firstRow hsize

theorem mlpRow_firstMlp_shard {hiddenSize intermediateSize : Nat} {r : Fin t} (hr : 0 < r.val)
    (hsize : 0 < intermediateSize) (hdvd : t ∣ intermediateSize) (silu : R → R)
    (x : Row R hiddenSize) :
    mlpRow silu ((firstMlp R hiddenSize intermediateSize).shard r) x = 0 :=
  vecMul_rowBlock_firstRow _ hr (Nat.div_pos (Nat.le_of_dvd hsize hdvd) r.pos) _

/-- Projections that attend to nothing: only `oProj` matters. -/
def blindProjection (oProj : Matrix (Fin (n * dims.vHeadDim)) (Fin dims.hiddenSize) R) :
    ProjectionWeights R dims n where
  query := .direct 0
  kvLatentProj := 0
  kvALayernorm := none
  kRopeProj := 0
  kvUpProj := 0
  oProj := oProj

/-- Functions of a layer with `norm` for both normalisations and one for the activation. -/
def unitFunctions {numExperts : Nat} (norm : Row R dims.hiddenSize → Row R dims.hiddenSize)
    (route : Route R numExperts) : LayerFunctions R dims numExperts where
  inputLayernorm := norm
  postAttentionLayernorm := norm
  silu := fun _ => 1
  route := route

/-- On one token and without MLP the layer returns what attention adds. -/
theorem forward_attention_singleton (weights : LayerWeights R dims sizes)
    (hmlp : weights.mlp = none) (hmoe : weights.moe = none) (route : Route R sizes.numExperts) :
    (forward weights (unitFunctions id route) (fun _ _ => 1) [0] none).map Prod.fst =
      .ok [1 ᵥ* weights.projection.oProj] := by
  simp [forward, layerForward, hmlp, hmoe, forwardHiddenStatesContiguous_eq, contiguousRows,
    unitFunctions, addRows, Except.map]
  rfl

/-- Where normalisation returns ones, the layer returns one plus the MLP of one. -/
theorem forward_mlp_singleton (weights : LayerWeights R dims sizes)
    {mlp : MlpWeights R dims.hiddenSize sizes.intermediateSize} (hmlp : weights.mlp = some mlp)
    (hmoe : weights.moe = none) (route : Route R sizes.numExperts) (attend : Attend R dims) :
    (forward weights (unitFunctions (fun _ => 1) route) attend [0] none).map Prod.fst =
      .ok [1 + mlpRow (fun _ => 1) mlp 1] := by
  simp [forward, layerForward, hmlp, hmoe, forwardHiddenStatesContiguous_eq, contiguousRows,
    unitFunctions, applyMlp, addRows, Except.map]

theorem forward_moe_singleton (weights : LayerWeights R dims sizes)
    {moe : MoeWeights R dims.hiddenSize sizes.numExperts sizes.moeSize sizes.sharedSize}
    (hmlp : weights.mlp = none) (hmoe : weights.moe = some moe)
    (route : Route R sizes.numExperts) (attend : Attend R dims) :
    (forward weights (unitFunctions (fun _ => 1) route) attend [0] none).map Prod.fst =
      .ok [1 + moeRow (fun _ => 1) route moe 1] := by
  simp [forward, layerForward, hmlp, hmoe, forwardHiddenStatesContiguous_eq, contiguousRows,
    unitFunctions, applyMoe_eq, addRows, Except.map]

/-! ## The exact condition -/

section Converse

variable (h : TensorParallelEquivalent R dims sizes t)
  (hrows : ¬ Subsingleton (Row R dims.hiddenSize)) (ht : 1 < t)

include hrows in
theorem one_ne_zero_row : (1 : Row R dims.hiddenSize) ≠ 0 :=
  fun heq => hrows (subsingleton_of_zero_eq_one heq.symm)

omit [CommRing R] in
include hrows in
theorem hiddenSize_pos : 0 < dims.hiddenSize := by
  refine Nat.pos_of_ne_zero fun hzero => hrows ⟨fun x y => funext fun i => ?_⟩
  rw [hzero] at i
  exact i.elim0

include h hrows ht

/-- If the ranks agree, attention adds nothing. -/
theorem TensorParallelEquivalent.attention_eq_zero (hdvd : t ∣ sizes.numHeads) :
    sizes.numHeads * dims.vHeadDim = 0 := by
  by_contra hne
  obtain ⟨hheads, hv⟩ := Nat.mul_ne_zero_iff.mp hne
  have hwidth : 0 < sizes.numHeads / t * dims.vHeadDim :=
    Nat.mul_pos (Nat.div_pos (Nat.le_of_dvd (by omega) hdvd) (by omega)) (by omega)
  let weights : LayerWeights R dims sizes :=
    ⟨blindProjection (firstRow R _ _), none, none⟩
  have heq := (forward_attention_singleton (weights.shard ⟨1, ht⟩) rfl rfl _).symm.trans
    ((h.forward weights (unitFunctions id fun _ _ _ => []) _ _ _ _).trans
      (forward_attention_singleton weights rfl rfl _))
  have hrow := List.head_eq_of_cons_eq (Except.ok.inj heq)
  have hwhole : 1 ᵥ* weights.projection.oProj = (1 : Row R dims.hiddenSize) :=
    one_vecMul_firstRow (Nat.pos_of_ne_zero hne)
  have hpart : 1 ᵥ* (weights.shard ⟨1, ht⟩).projection.oProj = (0 : Row R dims.hiddenSize) :=
    vecMul_rowBlock_firstRow _ Nat.one_pos hwidth _
  exact one_ne_zero_row hrows (hwhole.symm.trans (hrow.symm.trans hpart))

/-- If the ranks agree, the MLP adds nothing. -/
theorem TensorParallelEquivalent.intermediateSize_eq_zero (hdvd : t ∣ sizes.intermediateSize) :
    sizes.intermediateSize = 0 := by
  by_contra hne
  have hsize := Nat.pos_of_ne_zero hne
  let weights : LayerWeights R dims sizes := ⟨blindProjection 0, some (firstMlp R _ _), none⟩
  have heq := (forward_mlp_singleton (weights.shard ⟨1, ht⟩) rfl rfl _ _).symm.trans
    ((h.forward weights (unitFunctions (fun _ => 1) fun _ _ _ => []) (fun _ _ => 0) _ _ _).trans
      (forward_mlp_singleton weights rfl rfl _ _))
  have hrow := List.head_eq_of_cons_eq (Except.ok.inj heq)
  rw [mlpRow_firstMlp (hiddenSize_pos hrows) hsize,
    mlpRow_firstMlp_shard Nat.one_pos hsize hdvd] at hrow
  exact one_ne_zero_row hrows (add_left_cancel hrow).symm

/-- If the ranks agree, the second rank adds something where a mixture of experts adds one. -/
theorem TensorParallelEquivalent.moeRow_shard_ne_zero
    {moe : MoeWeights R dims.hiddenSize sizes.numExperts sizes.moeSize sizes.sharedSize}
    {route : Route R sizes.numExperts} (hwhole : moeRow (fun _ => 1) route moe 1 = 1) :
    moeRow (fun _ => 1) route (moe.shard ⟨1, ht⟩) 1 ≠ 0 := by
  intro hpart
  let weights : LayerWeights R dims sizes := ⟨blindProjection 0, none, some moe⟩
  have heq := (forward_moe_singleton (weights.shard ⟨1, ht⟩) rfl rfl _ _).symm.trans
    ((h.forward weights (unitFunctions (fun _ => 1) route) (fun _ _ => 0) _ _ _).trans
      (forward_moe_singleton weights rfl rfl _ _))
  have hrow := add_left_cancel (List.head_eq_of_cons_eq (Except.ok.inj heq))
  exact one_ne_zero_row hrows (hwhole.symm.trans (hrow.symm.trans hpart))

/-- If the ranks agree, the routed experts add nothing. -/
theorem TensorParallelEquivalent.moeSize_eq_zero (hexperts : 0 < sizes.numExperts)
    (hdvd : t ∣ sizes.moeSize) : sizes.moeSize = 0 := by
  by_contra hne
  have hsize := Nat.pos_of_ne_zero hne
  have hmlp : ∀ x, mlpRow (fun _ => 1)
      ((firstMlp R dims.hiddenSize sizes.moeSize).shard (⟨1, ht⟩ : Fin t)) x = 0 :=
    mlpRow_firstMlp_shard Nat.one_pos hsize hdvd _
  -- every token goes to the first expert with probability one
  let route : Route R sizes.numExperts := fun _ _ _ => [(⟨0, hexperts⟩, 1)]
  let moe : MoeWeights R dims.hiddenSize sizes.numExperts sizes.moeSize sizes.sharedSize :=
    ⟨0, fun _ => firstMlp R _ _, none, 1, true, Nat.one_pos, hexperts⟩
  have hwhole : moeRow (fun _ => 1) route moe 1 = (1 : Row R dims.hiddenSize) := by
    simp [moeRow, moe, route, expertProb, mlpRow_firstMlp (hiddenSize_pos hrows) hsize]
  apply h.moeRow_shard_ne_zero hrows ht hwhole
  simp [moeRow, moe, route, MoeWeights.shard, hmlp]

/-- If the ranks agree, the shared experts add nothing. -/
theorem TensorParallelEquivalent.sharedSize_eq_zero (hexperts : 0 < sizes.numExperts)
    (hdvd : t ∣ sizes.sharedSize) : sizes.sharedSize = 0 := by
  by_contra hne
  have hsize := Nat.pos_of_ne_zero hne
  have hmlp : ∀ x, mlpRow (fun _ => 1)
      ((firstMlp R dims.hiddenSize sizes.sharedSize).shard (⟨1, ht⟩ : Fin t)) x = 0 :=
    mlpRow_firstMlp_shard Nat.one_pos hsize hdvd _
  -- no probability goes to a routed expert
  let route : Route R sizes.numExperts := fun _ _ _ => []
  let moe : MoeWeights R dims.hiddenSize sizes.numExperts sizes.moeSize sizes.sharedSize :=
    ⟨0, fun _ => firstMlp R _ _, some (firstMlp R _ _), 1, true, Nat.one_pos, hexperts⟩
  have hwhole : moeRow (fun _ => 1) route moe 1 = (1 : Row R dims.hiddenSize) := by
    simp [moeRow, moe, route, expertProb, mlpRow_firstMlp (hiddenSize_pos hrows) hsize]
  apply h.moeRow_shard_ne_zero hrows ht hwhole
  simp [moeRow, moe, route, expertProb, MoeWeights.shard, hmlp]

/-- If several ranks agree, no weight is sharded. -/
theorem TensorParallelEquivalent.nothingSharded (hsizes : sizes.DividedBy t) :
    sizes.NothingSharded dims where
  attention := h.attention_eq_zero hrows ht hsizes.numHeads
  mlp := h.intermediateSize_eq_zero hrows ht hsizes.intermediateSize
  moe := by
    rcases Nat.eq_zero_or_pos sizes.numExperts with hnone | hexperts
    · exact .inl hnone
    · exact .inr ⟨h.moeSize_eq_zero hrows ht hexperts hsizes.moeSize,
        h.sharedSize_eq_zero hrows ht hexperts hsizes.sharedSize⟩

end Converse

omit [CommRing R] in
/-- Zero ranks divide nothing but zero. -/
theorem LayerSizes.DividedBy.nothingSharded (hsizes : sizes.DividedBy 0) :
    sizes.NothingSharded dims where
  attention := by rw [Nat.eq_zero_of_zero_dvd hsizes.numHeads, Nat.zero_mul]
  mlp := Nat.eq_zero_of_zero_dvd hsizes.intermediateSize
  moe := .inr ⟨Nat.eq_zero_of_zero_dvd hsizes.moeSize, Nat.eq_zero_of_zero_dvd hsizes.sharedSize⟩

/-- **The sharded layer is the unsharded one for a single rank only**, apart from sizes at which
    there is at most one hidden row or nothing is sharded. -/
theorem tensorParallelEquivalent_iff (hsizes : sizes.DividedBy t) :
    TensorParallelEquivalent R dims sizes t ↔
      t = 1 ∨ Subsingleton (Row R dims.hiddenSize) ∨ sizes.NothingSharded dims := by
  constructor
  · intro h
    by_cases hrows : Subsingleton (Row R dims.hiddenSize)
    · exact .inr (.inl hrows)
    · rcases Nat.lt_trichotomy t 1 with hzero | hone | hmany
      · obtain rfl : t = 0 := by omega
        exact .inr (.inr hsizes.nothingSharded)
      · exact .inl hone
      · exact .inr (.inr (h.nothingSharded hrows hmany hsizes))
  · rintro (hone | hrows | hnothing)
    · exact tensorParallelEquivalent_of_partIsWhole fun _ => partIsWhole_of_eq_one hsizes hone
    · exact tensorParallelEquivalent_of_partIsWhole fun _ => partIsWhole_of_subsingleton hrows
    · exact tensorParallelEquivalent_of_partIsWhole fun _ => partIsWhole_of_nothingSharded hnothing

end Ranks

/-! ## Two heads on two ranks -/

/-- One entry everywhere. -/
def unitDims : MlaDims := ⟨1, 1, 1, 1, 1⟩

/-- Two heads and an intermediate size of two, without experts. -/
def twoHeadSizes : LayerSizes := ⟨2, 2, 0, 0, 0⟩

/-- A dense layer in which every weight is one. -/
def twoHeadWeights : LayerWeights ℤ unitDims twoHeadSizes where
  projection := {
    query := .direct fun _ _ => 1
    kvLatentProj := fun _ _ => 1
    kvALayernorm := none
    kRopeProj := fun _ _ => 1
    kvUpProj := fun _ _ => 1
    oProj := fun _ _ => 1 }
  mlp := some ⟨fun _ _ => 1, fun _ _ => 1, fun _ _ => 1⟩
  moe := none

/-- No normalisation, and the identity as activation. -/
def plainFunctions : LayerFunctions ℤ unitDims 0 := ⟨id, id, id, fun _ _ _ => []⟩

/-- Attention that returns the value at the token itself. -/
def lastValue : Attend ℤ unitDims := fun _ kvs => (kvs.getLast?.map Prod.snd).getD 0

theorem twoHeadLayer_single_rank :
    twoHeadSizes.DividedBy 1 ∧ TensorParallelEquivalent ℤ unitDims twoHeadSizes 1 := by
  have hsizes : twoHeadSizes.DividedBy 1 := ⟨one_dvd _, one_dvd _, one_dvd _, one_dvd _⟩
  exact ⟨hsizes, (tensorParallelEquivalent_iff hsizes).mpr (.inl rfl)⟩

/-- From a hidden state of 1, the first of two ranks carries out 6 and the unsharded layer 21. -/
theorem twoHeadLayer_ranks_differ :
    twoHeadSizes.DividedBy 2 ∧
    (forward (twoHeadWeights.shard (0 : Fin 2)) plainFunctions lastValue [1] none).map Prod.fst =
      .ok [6] ∧
    (forward twoHeadWeights plainFunctions lastValue [1] none).map Prod.fst = .ok [21] ∧
    ¬ TensorParallelEquivalent ℤ unitDims twoHeadSizes 2 := by
  have hrank : (forward (twoHeadWeights.shard (0 : Fin 2)) plainFunctions lastValue [1] none).map
      Prod.fst = .ok [6] := by rfl
  have hwhole : (forward twoHeadWeights plainFunctions lastValue [1] none).map Prod.fst =
      .ok [21] := by rfl
  refine ⟨⟨by decide, by decide, by decide, by decide⟩, hrank, hwhole, fun h => ?_⟩
  have heq := h.forward twoHeadWeights plainFunctions lastValue [1] none 0
  rw [hrank, hwhole] at heq
  have hrow := congrFun (List.head_eq_of_cons_eq (Except.ok.inj heq)) (0 : Fin 1)
  exact absurd hrow (by decide)

end VAttention.Mla
