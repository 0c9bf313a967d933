import Mathlib.Algebra.BigOperators.Fin
import Mathlib.Tactic.SplitIfs
import VAttention.Core.Sequence
import VAttention.Mla.Model

/-!
# The DeepSeek-V2 decoder layer

Model of `DeepseekV2DecoderLayer` of `models/deepseek_v2.py`: both ways through attention (over the
contiguous cache, and through an attention wrapper), the dense MLP and the mixture of experts.
Every rank runs this code on its own weights.  No value of another rank enters anywhere: the output
projection of attention, and the down projections, go straight into the residual stream.
-/

namespace VAttention.Mla

open Matrix VAttention.Core VAttention.Lib.Blocks

variable {R : Type} {dims : MlaDims} {n : Nat}

/-! ## Weights -/

/-- The two ways to project queries: `q_proj`, or `q_a_proj`, its normalisation and `q_b_proj`. -/
inductive QueryProjection (R : Type) (dims : MlaDims) (n : Nat) where
  | direct (qProj : Matrix (Fin dims.hiddenSize) (Fin (n * dims.qHeadDim)) R)
  | lowRank (rank : Nat) (qAProj : Matrix (Fin dims.hiddenSize) (Fin rank) R)
      (qALayernorm : Row R rank → Row R rank)
      (qBProj : Matrix (Fin rank) (Fin (n * dims.qHeadDim)) R)

/-- `DeepseekV2MLAProjectionWeights` of a rank with `n` heads; a normalisation weight stands for
    the function it belongs to. -/
structure ProjectionWeights (R : Type) (dims : MlaDims) (n : Nat) where
  query : QueryProjection R dims n
  kvLatentProj : Matrix (Fin dims.hiddenSize) (Fin dims.kvLoraRank) R
  kvALayernorm : Option (Row R dims.kvLoraRank → Row R dims.kvLoraRank)
  kRopeProj : Matrix (Fin dims.hiddenSize) (Fin dims.qkRopeHeadDim) R
  kvUpProj : Matrix (Fin dims.kvLoraRank) (Fin (n * (dims.qkNopeHeadDim + dims.vHeadDim))) R
  oProj : Matrix (Fin (n * dims.vHeadDim)) (Fin dims.hiddenSize) R

/-- `DeepseekV2MLPWeights`. -/
structure MlpWeights (R : Type) (hiddenSize intermediateSize : Nat) where
  gateProj : Matrix (Fin hiddenSize) (Fin intermediateSize) R
  upProj : Matrix (Fin hiddenSize) (Fin intermediateSize) R
  downProj : Matrix (Fin intermediateSize) (Fin hiddenSize) R

/-- `DeepseekV2MoEWeights`, with the bounds that `make_moe_weights` checks. -/
structure MoeWeights (R : Type) (hiddenSize numExperts moeSize sharedSize : Nat) where
  gate : Matrix (Fin numExperts) (Fin hiddenSize) R
  experts : Fin numExperts → MlpWeights R hiddenSize moeSize
  sharedExperts : Option (MlpWeights R hiddenSize sharedSize)
  topK : Nat
  normTopkProb : Bool
  topK_pos : 0 < topK
  topK_le : topK ≤ numExperts

/-! ## The MLP and the mixture of experts -/

section Blocks

variable [CommRing R] {hiddenSize intermediateSize numExperts moeSize sharedSize : Nat}

/-- `a + b` on tensors of one shape. -/
def addRows {d : Nat} (a b : Rows R d) : Rows R d := List.zipWith (· + ·) a b

/-- One row of `apply_mlp`. -/
def mlpRow (silu : R → R) (weights : MlpWeights R hiddenSize intermediateSize)
    (x : Row R hiddenSize) : Row R hiddenSize :=
  (fun j => silu ((x ᵥ* weights.gateProj) j) * (x ᵥ* weights.upProj) j) ᵥ* weights.downProj

/-- `apply_mlp`. -/
def applyMlp (silu : R → R) (weights : MlpWeights R hiddenSize intermediateSize)
    (hiddenStates : Rows R hiddenSize) : Rows R hiddenSize :=
  hiddenStates.map (mlpRow silu weights)

/-- The experts chosen for one token, each with its probability: softmax over the gate scores,
    `torch.topk` and, with `norm_topk_prob`, the division by their sum. -/
abbrev Route (R : Type) (numExperts : Nat) :=
  (topK : Nat) → (normTopkProb : Bool) → Row R numExperts → List (Fin numExperts × R)

/-- `(topk_probs * expert_mask).sum(dim=-1)` for one token. -/
def expertProb (chosen : List (Fin numExperts × R)) (expertIdx : Fin numExperts) : R :=
  (chosen.map fun c => c.2 * if c.1 = expertIdx then 1 else 0).sum

/-- `apply_moe`. -/
def applyMoe (silu : R → R) (route : Route R numExperts)
    (weights : MoeWeights R hiddenSize numExperts moeSize sharedSize)
    (hiddenStates : Rows R hiddenSize) : Rows R hiddenSize :=
  let chosen := hiddenStates.map fun x =>
    route weights.topK weights.normTopkProb (x ᵥ* weights.gateᵀ)
  let output := (List.finRange numExperts).foldl
    (fun output expertIdx =>
      let expertOutput := applyMlp silu (weights.experts expertIdx) hiddenStates
      -- an expert that no token of the batch chose is skipped
      if chosen.any fun row => row.any fun c => c.1 = expertIdx then
        addRows output
          (List.zipWith (fun y row => expertProb row expertIdx • y) expertOutput chosen)
      else output)
    (hiddenStates.map fun _ => 0)
  match weights.sharedExperts with
  | none => output
  | some shared => addRows output (applyMlp silu shared hiddenStates)

/-- One row of `apply_moe`. -/
def moeRow (silu : R → R) (route : Route R numExperts)
    (weights : MoeWeights R hiddenSize numExperts moeSize sharedSize) (x : Row R hiddenSize) :
    Row R hiddenSize :=
  let chosen := route weights.topK weights.normTopkProb (x ᵥ* weights.gateᵀ)
  let output := ∑ e, expertProb chosen e • mlpRow silu (weights.experts e) x
  match weights.sharedExperts with
  | none => output
  | some shared => output + mlpRow silu shared x

theorem addRows_map {α : Type} {d : Nat} (f g : α → Row R d) (l : List α) :
    addRows (l.map f) (l.map g) = l.map fun a => f a + g a := by
  rw [addRows, List.zipWith_map, List.zipWith_self]

/-- The probability of an expert that a token did not choose is zero. -/
theorem expertProb_eq_zero {chosen : List (Fin numExperts × R)} {expertIdx : Fin numExperts}
    (h : ∀ c ∈ chosen, c.1 ≠ expertIdx) : expertProb chosen expertIdx = 0 := by
  apply List.sum_eq_zero
  intro y hy
  obtain ⟨c, hc, rfl⟩ := List.mem_map.mp hy
  rw [if_neg (h c hc), mul_zero]

/-- The loop over the experts adds the weighted output of each of them to every row. -/
theorem foldl_experts (silu : R → R) (experts : Fin numExperts → MlpWeights R hiddenSize moeSize)
    (choose : Row R hiddenSize → List (Fin numExperts × R)) (hiddenStates : Rows R hiddenSize)
    (expertIdxs : List (Fin numExperts)) (output : Row R hiddenSize → Row R hiddenSize) :
    expertIdxs.foldl
      (fun output expertIdx =>
        if (hiddenStates.map choose).any fun row => row.any fun c => c.1 = expertIdx then
          addRows output (List.zipWith (fun y row => expertProb row expertIdx • y)
            (applyMlp silu (experts expertIdx) hiddenStates) (hiddenStates.map choose))
        else output)
      (hiddenStates.map output) =
    hiddenStates.map fun x => output x +
      (expertIdxs.map fun e => expertProb (choose x) e • mlpRow silu (experts e) x).sum := by
  induction expertIdxs generalizing output with
  | nil => simp
  | cons e expertIdxs ih =>
    rw [List.foldl_cons]
    split_ifs with hany
    · rw [applyMlp, List.zipWith_map, List.zipWith_self, addRows_map, ih]
      simp only [List.map_cons, List.sum_cons, add_assoc]
    · -- nobody chose the expert: the skipped term is zero in every row
      rw [ih]
      refine List.map_congr_left fun x hx => ?_
      have hzero : expertProb (choose x) e = 0 := by
        refine expertProb_eq_zero fun c hc heq => hany ?_
        exact List.any_eq_true.mpr ⟨choose x, List.mem_map_of_mem hx,
          List.any_eq_true.mpr ⟨c, hc, decide_eq_true heq⟩⟩
      rw [List.map_cons, List.sum_cons, hzero, zero_smul, zero_add]

/-- **The mixture of experts works row by row**, although it skips experts by looking at the whole
    batch. -/
theorem applyMoe_eq (silu : R → R) (route : Route R numExperts)
    (weights : MoeWeights R hiddenSize numExperts moeSize sharedSize)
    (hiddenStates : Rows R hiddenSize) :
    applyMoe silu route weights hiddenStates = hiddenStates.map (moeRow silu route weights) := by
  have hloop := foldl_experts silu weights.experts
    (fun x => route weights.topK weights.normTopkProb (x ᵥ* weights.gateᵀ)) hiddenStates
    (List.finRange numExperts) fun _ => 0
  simp only [zero_add, ← Fin.sum_univ_def] at hloop
  rw [applyMoe, hloop]
  cases hshared : weights.sharedExperts with
  | none =>
    refine List.map_congr_left fun x _ => ?_
    simp only [moeRow, hshared]
  | some shared =>
    show addRows _ (hiddenStates.map (mlpRow silu shared)) = _
    rw [addRows_map]
    refine List.map_congr_left fun x _ => ?_
    simp only [moeRow, hshared]

/-! ## Attention -/

/-- The query row of a token. -/
def QueryProjection.apply (query : QueryProjection R dims n) (x : Row R dims.hiddenSize) :
    Row R (n * dims.qHeadDim) :=
  match query with
  | .direct qProj => x ᵥ* qProj
  | .lowRank _ qAProj qALayernorm qBProj => qALayernorm (x ᵥ* qAProj) ᵥ* qBProj

/-- The latent row of a token. -/
def ProjectionWeights.latent (weights : ProjectionWeights R dims n) (x : Row R dims.hiddenSize) :
    Row R dims.kvLoraRank :=
  match weights.kvALayernorm with
  | none => x ᵥ* weights.kvLatentProj
  | some norm => norm (x ᵥ* weights.kvLatentProj)

/-- `project_mla_from_hidden_states`. -/
def projectMlaFromHiddenStates (weights : ProjectionWeights R dims n)
    (hiddenStates : Rows R dims.hiddenSize) :
    Rows R (n * dims.qHeadDim) × ResidentCache R dims :=
  (hiddenStates.map weights.query.apply, {
    kvLatent := hiddenStates.map weights.latent
    kRope := hiddenStates.map fun x => x ᵥ* weights.kRopeProj
    length_eq := by rw [List.length_map, List.length_map] })

/-- `forward_hidden_states_contiguous`. -/
def forwardHiddenStatesContiguous (attend : Attend R dims) (weights : ProjectionWeights R dims n)
    (hiddenStates : Rows R dims.hiddenSize) (cache : Option (ResidentCache R dims)) :
    Rows R dims.hiddenSize × ResidentCache R dims :=
  let (queryStates, newCache) := projectMlaFromHiddenStates weights hiddenStates
  let (output, cache) :=
    contiguousMlaAttentionForward attend queryStates newCache weights.kvUpProj cache
  (output.map fun row => row ᵥ* weights.oProj, cache)

/-- One head of an attention wrapper: from the KV cache of the runtime, the resident rows before
    and of this call, the reconstruction of keys and values and the queries of the head, the output
    for every token. -/
abbrev HeadWrapper (R : Type) (dims : MlaDims) (KvCache : Type) :=
  KvCache → Option (ResidentCache R dims) → ResidentCache R dims →
    (Row R dims.kvLoraRank → Row R dims.qkRopeHeadDim → Row R dims.qHeadDim × Row R dims.vHeadDim) →
    List (Row R dims.qHeadDim) → Nat → Row R dims.vHeadDim

/-- `mla_attention_with_wrapper`. -/
def mlaAttentionWithWrapper {KvCache : Type} (wrapper : HeadWrapper R dims KvCache)
    (weights : ProjectionWeights R dims n) (kvCache : KvCache)
    (hiddenStates : Rows R dims.hiddenSize) (cache : Option (ResidentCache R dims)) :
    Rows R dims.hiddenSize × ResidentCache R dims :=
  let (queryStates, newCache) := projectMlaFromHiddenStates weights hiddenStates
  let (qNope, qRope) := splitQueryProjection queryStates
  let query := joinQuery qNope qRope
  let output := (List.range hiddenStates.length).map fun i => ungroup fun head =>
    wrapper kvCache cache newCache (denseKv weights.kvUpProj head) (query.map fun q => q head) i
  (output.map fun row => row ᵥ* weights.oProj, appendResidentCache cache newCache)

/-! ## The layer -/

/-- The functions of a layer that are not matrix products. -/
structure LayerFunctions (R : Type) (dims : MlaDims) (numExperts : Nat) where
  inputLayernorm : Row R dims.hiddenSize → Row R dims.hiddenSize
  postAttentionLayernorm : Row R dims.hiddenSize → Row R dims.hiddenSize
  silu : R → R
  route : Route R numExperts

/-- The sizes that are divided among the ranks, and the number of experts. -/
structure LayerSizes where
  numHeads : Nat
  intermediateSize : Nat
  numExperts : Nat
  moeSize : Nat
  sharedSize : Nat
  deriving DecidableEq, Repr

/-- What a layer is called with besides the hidden states and the cache. -/
structure LayerWeights (R : Type) (dims : MlaDims) (sizes : LayerSizes) where
  projection : ProjectionWeights R dims sizes.numHeads
  mlp : Option (MlpWeights R dims.hiddenSize sizes.intermediateSize)
  moe : Option (MoeWeights R dims.hiddenSize sizes.numExperts sizes.moeSize sizes.sharedSize)

variable {sizes : LayerSizes}

/-- The layer around its attention: what `forward` and `forward_with_attention_wrapper` share. -/
def layerForward (weights : LayerWeights R dims sizes)
    (functions : LayerFunctions R dims sizes.numExperts)
    (attention : Rows R dims.hiddenSize → Rows R dims.hiddenSize × ResidentCache R dims)
    (hiddenStates : Rows R dims.hiddenSize) :
    Except PyError (Rows R dims.hiddenSize × ResidentCache R dims) :=
  if weights.mlp.isSome && weights.moe.isSome then
    .error (.valueError "mlp_weights and moe_weights are mutually exclusive")
  else
    let residual := hiddenStates
    let hiddenStates := hiddenStates.map functions.inputLayernorm
    let (attnOutput, cache) := attention hiddenStates
    let hiddenStates := addRows residual attnOutput
    let hiddenStates := hiddenStates.map functions.postAttentionLayernorm
    match weights.mlp, weights.moe with
    | some mlp, _ => .ok (addRows hiddenStates (applyMlp functions.silu mlp hiddenStates), cache)
    | none, some moe =>
      .ok (addRows hiddenStates (applyMoe functions.silu functions.route moe hiddenStates), cache)
    | none, none => .ok (hiddenStates, cache)

/-- `DeepseekV2DecoderLayer.forward`. -/
def forward (weights : LayerWeights R dims sizes)
    (functions : LayerFunctions R dims sizes.numExperts) (attend : Attend R dims)
    (hiddenStates : Rows R dims.hiddenSize) (cache : Option (ResidentCache R dims)) :
    Except PyError (Rows R dims.hiddenSize × ResidentCache R dims) :=
  layerForward weights functions
    (fun hiddenStates => forwardHiddenStatesContiguous attend weights.projection hiddenStates cache)
    hiddenStates

/-- `DeepseekV2DecoderLayer.forward_with_attention_wrapper`. -/
def forwardWithAttentionWrapper {KvCache : Type} (weights : LayerWeights R dims sizes)
    (functions : LayerFunctions R dims sizes.numExperts) (wrapper : HeadWrapper R dims KvCache)
    (kvCache : KvCache) (hiddenStates : Rows R dims.hiddenSize)
    (cache : Option (ResidentCache R dims)) :
    Except PyError (Rows R dims.hiddenSize × ResidentCache R dims) :=
  layerForward weights functions
    (fun hiddenStates =>
      mlaAttentionWithWrapper wrapper weights.projection kvCache hiddenStates cache)
    hiddenStates

end Blocks

end VAttention.Mla
