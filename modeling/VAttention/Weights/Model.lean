import VAttention.Lib.Checks
import VAttention.Weights.Layout

/-!
# Loading a checkpoint into one pipeline stage

`DeepseekV2ForCausalLM.load_scaffold_state_dict` walks over the layers of its pipeline stage.
For each layer it looks every tensor up under several candidate names, brings it into the
layout and shard of this rank and checks the shapes; a layer ends with its norms, its
attention projections and either a dense MLP, a mixture of experts or neither.

The model keeps the two parts apart: `fetchLayer` makes all lookups of one layer, and
`installLayer` computes with what they returned.  Lookups have no effect and raise nothing, so
the order of the raised errors is that of the source.  Conversion to the dtype of the reference
weight is the function `cast` on elements.
-/

namespace VAttention.Weights

open VAttention.Lib

/-- Exceptions of the loader, with their messages. -/
inductive LoadError where
  | keyError (message : String)
  | valueError (message : String)
  | notImplementedError (message : String)
  | indexError
deriving DecidableEq, Repr

/-- Fields of the HuggingFace configuration that loading reads; an absent attribute has the
    default of its `getattr`. -/
structure DeepseekV2Config where
  hiddenSize : Nat
  numHiddenLayers : Nat
  numAttentionHeads : Nat
  qLoraRank : Option Nat
  kvLoraRank : Nat
  qkNopeHeadDim : Nat
  qkRopeHeadDim : Nat
  vHeadDim : Nat
  vocabSize : Option Nat := none
  intermediateSize : Option Nat := none
  moeIntermediateSize : Option Nat := none
  nSharedExperts : Nat := 1
  nRoutedExperts : Nat := 0
  firstKDenseReplace : Option Nat := none
  numExpertsPerTok : Nat := 1
  normTopkProb : Bool := true
deriving DecidableEq, Repr

/-- A pipeline stage on one tensor-parallel rank.  The layers divide evenly over the stages
    and the heads over the ranks: the constructors raise otherwise. -/
structure Stage where
  config : DeepseekV2Config
  tp : TensorParallel
  pipelineWorldSize : Nat
  pipelineRank : Nat
  rank_lt : pipelineRank < pipelineWorldSize
  layers_dvd : config.numHiddenLayers % pipelineWorldSize = 0
  heads_dvd : config.numAttentionHeads % tp.worldSize = 0

namespace Stage

/-- `num_layers` -/
def numLayers (stage : Stage) : Nat := stage.config.numHiddenLayers / stage.pipelineWorldSize

/-- `layer_offset` -/
def layerOffset (stage : Stage) : Nat := stage.pipelineRank * stage.numLayers

/-- `is_pipeline_first_stage` -/
def isFirst (stage : Stage) : Bool := stage.pipelineRank == 0

/-- `is_pipeline_last_stage` -/
def isLast (stage : Stage) : Bool := stage.pipelineRank == stage.pipelineWorldSize - 1

/-- `num_heads`, the heads of this rank. -/
def numHeads (stage : Stage) : Nat := stage.config.numAttentionHeads / stage.tp.worldSize

/-- `q_proj_output_dim_local` -/
def qProjOutputDimLocal (stage : Stage) : Nat :=
  stage.numHeads * (stage.config.qkNopeHeadDim + stage.config.qkRopeHeadDim)

/-- `kv_up_proj_output_dim_local` -/
def kvUpProjOutputDimLocal (stage : Stage) : Nat :=
  stage.numHeads * (stage.config.qkNopeHeadDim + stage.config.vHeadDim)

/-- `o_proj_input_dim_local` -/
def oProjInputDimLocal (stage : Stage) : Nat := stage.numHeads * stage.config.vHeadDim

end Stage

/-! ## Names and lookups -/

/-- The state dict: names with their tensors. -/
abbrev StateDict (α : Type) := List (String × Tensor α)

variable {α : Type}

namespace Tensor

/-- `tensor.shape` -/
def shape : Tensor α → List Nat
  | .matrix m => m.shape
  | .other shape _ _ => shape

/-- `tensor.to(dtype=...)`, element by element. -/
def cast (f : α → α) : Tensor α → Tensor α
  | .matrix m => .matrix (m.map f)
  | .other shape hndim entries => .other shape hndim (entries.map f)

end Tensor

/-- `_get_scaffold_tensor`: the first of the keys that is present. -/
def getScaffoldTensor (stateDict : StateDict α) (keys : List String) : Option (Tensor α) :=
  keys.findSome? fun key => stateDict.lookup key

/-- Name of a block of a layer in a HuggingFace checkpoint. -/
def modelLayerName (layerIdx : Nat) (suffix : String) : String :=
  "model.layers." ++ toString layerIdx ++ "." ++ suffix

/-- The same name without the `model.` part. -/
def layerName (layerIdx : Nat) (suffix : String) : String :=
  "layers." ++ toString layerIdx ++ "." ++ suffix

/-- `_candidate_layer_prefixes`: the local index before the global one. -/
def candidateLayerPrefixes (layerIdx layerOffset : Nat) (suffix : String) : List String :=
  [modelLayerName layerIdx suffix, modelLayerName (layerOffset + layerIdx) suffix,
    layerName layerIdx suffix, layerName (layerOffset + layerIdx) suffix]

/-- `_has_moe_layer_weights` -/
def hasMoeLayerWeights (stateDict : StateDict α) (layerPrefixes : List String) : Bool :=
  let moePrefixes := layerPrefixes.flatMap fun mlp =>
    [mlp ++ ".gate.weight", mlp ++ ".shared_experts.gate_proj.weight",
      mlp ++ ".shared_experts.up_proj.weight", mlp ++ ".shared_experts.down_proj.weight",
      mlp ++ ".experts."]
  stateDict.any fun entry =>
    moePrefixes.any fun candidate => entry.1 == candidate || entry.1.startsWith candidate

/-! ## The tensors of one layer -/

/-- The three matrices of an MLP, as far as they are present. -/
structure MlpTensors (α : Type) where
  gateProj : Option (Tensor α)
  upProj : Option (Tensor α)
  downProj : Option (Tensor α)
deriving DecidableEq

/-- `projection_tensors`, and `DeepseekV2MLAProjectionWeights` once they are checked. -/
structure ProjectionTensors (α : Type) where
  qProj : Option (Tensor α)
  qAProj : Option (Tensor α)
  qALayernormWeight : Option (Tensor α)
  qBProj : Option (Tensor α)
  kvLatentProj : Option (Tensor α)
  kvALayernormWeight : Option (Tensor α)
  kRopeProj : Option (Tensor α)
  kvUpProj : Option (Tensor α)
  oProj : Option (Tensor α)
deriving DecidableEq

/-- What the lookups of one layer return. -/
structure LayerTensors (α : Type) where
  inputLayernorm : Option (Tensor α)
  postAttentionLayernorm : Option (Tensor α)
  projections : ProjectionTensors α
  kvAProjWithMqa : Option (Tensor α)
  kvBProj : Option (Tensor α)
  mlp : MlpTensors α
  gate : Option (Tensor α)
  sharedExperts : MlpTensors α
  experts : List (MlpTensors α)
  /-- `_has_moe_layer_weights` -/
  moeNames : Bool
deriving DecidableEq

/-- Where the tensors of one layer come from: a tensor for the name of a block and the rest of
    the name, and the answer of the scan for expert weights. -/
structure LayerSource (α : Type) where
  tensor : String → String → Option (Tensor α)
  moeNames : Bool

/-- The source that the loader uses: the candidate names of a local layer. -/
def candidateSource (stateDict : StateDict α) (layerOffset layerIdx : Nat) : LayerSource α where
  tensor block weight :=
    getScaffoldTensor stateDict
      ((candidateLayerPrefixes layerIdx layerOffset block).map (· ++ weight))
  moeNames := hasMoeLayerWeights stateDict (candidateLayerPrefixes layerIdx layerOffset "mlp")

/-- The lookups of an MLP below a block. -/
def fetchMlp (source : LayerSource α) (path : String) : MlpTensors α where
  gateProj := source.tensor "mlp" (path ++ ".gate_proj.weight")
  upProj := source.tensor "mlp" (path ++ ".up_proj.weight")
  downProj := source.tensor "mlp" (path ++ ".down_proj.weight")

/-- All lookups of one layer. -/
def fetchLayer (nRoutedExperts : Nat) (source : LayerSource α) : LayerTensors α where
  inputLayernorm := source.tensor "input_layernorm" ".weight"
  postAttentionLayernorm := source.tensor "post_attention_layernorm" ".weight"
  projections := {
    qProj := source.tensor "self_attn" ".q_proj.weight"
    qAProj := source.tensor "self_attn" ".q_a_proj.weight"
    qALayernormWeight := source.tensor "self_attn" ".q_a_layernorm.weight"
    qBProj := source.tensor "self_attn" ".q_b_proj.weight"
    kvLatentProj := source.tensor "self_attn" ".kv_latent_proj.weight"
    kvALayernormWeight := source.tensor "self_attn" ".kv_a_layernorm.weight"
    kRopeProj := source.tensor "self_attn" ".k_rope_proj.weight"
    kvUpProj := source.tensor "self_attn" ".kv_up_proj.weight"
    oProj := source.tensor "self_attn" ".o_proj.weight" }
  kvAProjWithMqa := source.tensor "self_attn" ".kv_a_proj_with_mqa.weight"
  kvBProj := source.tensor "self_attn" ".kv_b_proj.weight"
  mlp := fetchMlp source ""
  gate := source.tensor "mlp" ".gate.weight"
  sharedExperts := fetchMlp source ".shared_experts"
  experts := (List.range nRoutedExperts).map fun expertIdx =>
    fetchMlp source (".experts." ++ toString expertIdx)
  moeNames := source.moeNames

/-! ## Attention projections -/

/-- `_split_combined_kv_a_proj_with_mqa_weight`; the local and the global shape are the same
    expression in the source. -/
def splitCombinedKvAProjWithMqaWeight (config : DeepseekV2Config) (tensor : Option (Tensor α)) :
    Option (Tensor α) × Option (Tensor α) :=
  let width := config.kvLoraRank + config.qkRopeHeadDim
  match coerceLinearWeightLayout tensor [config.hiddenSize, width] with
  | none => (none, none)
  | some (.matrix m) =>
    if m.shape = [config.hiddenSize, width] then
      (some (.matrix (m.slice .cols 0 config.kvLoraRank)),
        some (.matrix (m.slice .cols config.kvLoraRank m.cols)))
    else (some (.matrix m), some (.matrix m))
  | some tensor => (some tensor, some tensor)

/-- The combined weights fill the entries that the checkpoint has under no name of their
    own. -/
def resolveCombined (config : DeepseekV2Config) (layer : LayerTensors α) : ProjectionTensors α :=
  let projections := layer.projections
  let combined := splitCombinedKvAProjWithMqaWeight config layer.kvAProjWithMqa
  let projections :=
    if projections.kvLatentProj.isNone && projections.kRopeProj.isNone &&
        combined.1.isSome && combined.2.isSome then
      { projections with kvLatentProj := combined.1, kRopeProj := combined.2 }
    else projections
  if projections.kvUpProj.isNone && layer.kvBProj.isSome then
    { projections with kvUpProj := layer.kvBProj }
  else projections

/-- Layout and shard of every projection. -/
def coerceProjections (stage : Stage) (projections : ProjectionTensors α) : ProjectionTensors α :=
  let config := stage.config
  let sliced := fun tensor shape dim =>
    coerceAndSliceTensorParallelLinearWeight stage.tp tensor shape dim
  { projections with
    qProj := sliced projections.qProj (config.hiddenSize, stage.qProjOutputDimLocal) .cols
    qAProj :=
      match config.qLoraRank with
      | some rank => coerceLinearWeightLayout projections.qAProj [config.hiddenSize, rank]
      | none => projections.qAProj
    qBProj :=
      match config.qLoraRank with
      | some rank => sliced projections.qBProj (rank, stage.qProjOutputDimLocal) .cols
      | none => projections.qBProj
    kvLatentProj :=
      coerceLinearWeightLayout projections.kvLatentProj [config.hiddenSize, config.kvLoraRank]
    kRopeProj :=
      coerceLinearWeightLayout projections.kRopeProj [config.hiddenSize, config.qkRopeHeadDim]
    kvUpProj :=
      sliced projections.kvUpProj (config.kvLoraRank, stage.kvUpProjOutputDimLocal) .cols
    oProj := sliced projections.oProj (stage.oProjInputDimLocal, config.hiddenSize) .rows }

/-- `missing_projection_keys` -/
def missingProjectionKeys (projections : ProjectionTensors α) : List String :=
  let queryLora := [("q_a_proj", projections.qAProj),
    ("q_a_layernorm_weight", projections.qALayernormWeight), ("q_b_proj", projections.qBProj)]
  let queryUsesQLora := projections.qProj.isNone && queryLora.any (·.2.isSome)
  let required := (if queryUsesQLora then queryLora else [("q_proj", projections.qProj)]) ++
    [("kv_latent_proj", projections.kvLatentProj), ("k_rope_proj", projections.kRopeProj),
      ("kv_up_proj", projections.kvUpProj), ("o_proj", projections.oProj)]
  (required.filter (·.2.isNone)).map (·.1)

/-- `if tensor is not None and tuple(tensor.shape) != expected: raise ValueError(message)`;
    an expected shape that is not configured differs from every shape. -/
def checkShape (tensor : Option (Tensor α)) (expected : Option (List Nat)) (message : String) :
    Except LoadError Unit :=
  raiseIf (tensor.isSome && tensor.map Tensor.shape != expected) (.valueError message)

/-- `make_projection_weights` -/
def makeProjectionWeights (stage : Stage) (projections : ProjectionTensors α) :
    Except LoadError (ProjectionTensors α) := do
  let config := stage.config
  if projections.qProj.isSome then
    checkShape projections.qProj (some [config.hiddenSize, stage.qProjOutputDimLocal])
      "q_proj shape does not match local MLA query projection size"
  else
    raiseIf config.qLoraRank.isNone
      (.valueError "q_proj is required when q_lora_rank is not configured")
    raiseIf (projections.qAProj.isNone || projections.qALayernormWeight.isNone ||
        projections.qBProj.isNone) (.valueError
      "q_a_proj, q_a_layernorm_weight, and q_b_proj are required when q_proj is absent")
  checkShape projections.qAProj (config.qLoraRank.map fun rank => [config.hiddenSize, rank])
    "q_a_proj shape does not match local MLA query latent size"
  checkShape projections.qALayernormWeight (config.qLoraRank.map fun rank => [rank])
    "q_a_layernorm_weight shape does not match q_lora_rank"
  checkShape projections.qBProj
    (config.qLoraRank.map fun rank => [rank, stage.qProjOutputDimLocal])
    "q_b_proj shape does not match local MLA query projection size"
  checkShape projections.kvLatentProj (some [config.hiddenSize, config.kvLoraRank])
    "kv_latent_proj shape does not match local MLA latent projection size"
  checkShape projections.kvALayernormWeight (some [config.kvLoraRank])
    "kv_a_layernorm_weight shape does not match kv_lora_rank"
  checkShape projections.kRopeProj (some [config.hiddenSize, config.qkRopeHeadDim])
    "k_rope_proj shape does not match local MLA rope projection size"
  checkShape projections.kvUpProj (some [config.kvLoraRank, stage.kvUpProjOutputDimLocal])
    "kv_up_proj shape does not match local MLA up-projection size"
  checkShape projections.oProj (some [stage.oProjInputDimLocal, config.hiddenSize])
    "o_proj shape does not match local MLA output projection size"
  return projections

/-! ## Dense MLP and experts -/

/-- `DeepseekV2MLPWeights` -/
structure MlpWeights (α : Type) where
  gateProj : Tensor α
  upProj : Tensor α
  downProj : Tensor α
deriving DecidableEq

/-- `DeepseekV2MoEWeights` -/
structure MoeWeights (α : Type) where
  gate : Tensor α
  experts : List (MlpWeights α)
  sharedExperts : Option (MlpWeights α)
  topK : Nat
  normTopkProb : Bool
deriving DecidableEq

/-- Layout of an MLP matrix when no intermediate size is configured: the extent that is not
    the hidden size, read off the dimension `hiddenDim` that should be. -/
def normalizeByShape (hiddenSize : Nat) (hiddenDim : Dim) (tensor : Option (Tensor α)) :
    Option (Tensor α) :=
  match tensor with
  | some (.matrix m) =>
    match hiddenDim with
    | .rows =>
      let intermediateSize := if m.rows = hiddenSize then m.cols else m.rows
      coerceLinearWeightLayout tensor [hiddenSize, intermediateSize]
    | .cols =>
      let intermediateSize := if m.cols = hiddenSize then m.rows else m.cols
      coerceLinearWeightLayout tensor [intermediateSize, hiddenSize]
  | tensor => tensor

/-- `_normalize_mlp_tensor_layouts` -/
def normalizeMlpTensorLayouts (stage : Stage) (tensors : MlpTensors α)
    (intermediateSize : Option Nat) : Except LoadError (MlpTensors α) := do
  let hiddenSize := stage.config.hiddenSize
  match intermediateSize with
  | some intermediateSize =>
    raiseIf (intermediateSize % stage.tp.worldSize != 0) (.valueError
      "DeepSeek-V2 intermediate size must divide evenly across tensor parallel ranks")
    let localSize := intermediateSize / stage.tp.worldSize
    let sliced := fun tensor shape dim =>
      coerceAndSliceTensorParallelLinearWeight stage.tp tensor shape dim
    return {
      gateProj := sliced tensors.gateProj (hiddenSize, localSize) .cols
      upProj := sliced tensors.upProj (hiddenSize, localSize) .cols
      downProj := sliced tensors.downProj (localSize, hiddenSize) .rows }
  | none =>
    return {
      gateProj := normalizeByShape hiddenSize .rows tensors.gateProj
      upProj := normalizeByShape hiddenSize .rows tensors.upProj
      downProj := normalizeByShape hiddenSize .cols tensors.downProj }

/-- `_coerce_scaffold_tensor` on the three matrices. -/
def MlpTensors.cast (f : α → α) (tensors : MlpTensors α) : MlpTensors α where
  gateProj := tensors.gateProj.map (Tensor.cast f)
  upProj := tensors.upProj.map (Tensor.cast f)
  downProj := tensors.downProj.map (Tensor.cast f)

/-- The names of the absent matrices, sorted. -/
def MlpTensors.missing (tensors : MlpTensors α) : List String :=
  ([("down_proj", tensors.downProj), ("gate_proj", tensors.gateProj),
    ("up_proj", tensors.upProj)].filter (·.2.isNone)).map (·.1)

/-- `make_mlp_weights`; `shape[1]` raises on a tensor of one dimension. -/
def makeMlpWeights (hiddenSize : Nat) (gateProj upProj downProj : Tensor α) :
    Except LoadError (MlpWeights α) := do
  match gateProj.shape[1]? with
  | none => throw .indexError
  | some intermediateSize =>
    raiseIf (gateProj.shape != [hiddenSize, intermediateSize])
      (.valueError "gate_proj shape does not match MLP hidden/intermediate dimensions")
    raiseIf (upProj.shape != [hiddenSize, intermediateSize])
      (.valueError "up_proj shape does not match MLP hidden/intermediate dimensions")
    raiseIf (downProj.shape != [intermediateSize, hiddenSize])
      (.valueError "down_proj shape does not match MLP intermediate/hidden dimensions")
    return ⟨gateProj, upProj, downProj⟩

/-- `_make_optional_mlp_weights`; `onMissing` is what its callers make of the `KeyError`. -/
def makeOptionalMlpWeights (hiddenSize : Nat) (tensors : MlpTensors α)
    (onMissing : String → LoadError) : Except LoadError (Option (MlpWeights α)) :=
  match tensors.gateProj, tensors.upProj, tensors.downProj with
  | none, none, none => return none
  | some gateProj, some upProj, some downProj =>
    some <$> makeMlpWeights hiddenSize gateProj upProj downProj
  | _, _, _ =>
    -- formatting a `KeyError` shows its message in quotes
    throw (onMissing ("'Missing scaffold MLP weights: " ++ ", ".intercalate tensors.missing ++ "'"))

/-- `make_moe_weights` -/
def makeMoeWeights (config : DeepseekV2Config) (gate : Tensor α) (experts : List (MlpWeights α))
    (sharedExperts : Option (MlpWeights α)) : Except LoadError (MoeWeights α) := do
  raiseIf (gate.shape.length != 2 || gate.shape[1]? != some config.hiddenSize)
    (.valueError "gate must have shape [num_experts, hidden_size]")
  raiseIf experts.isEmpty (.valueError "experts must provide at least one routed expert")
  raiseIf (gate.shape[0]? != some experts.length)
    (.valueError "gate rows must match the number of routed experts")
  raiseIf (config.numExpertsPerTok == 0 || experts.length < config.numExpertsPerTok)
    (.valueError "top_k must be between 1 and the number of routed experts")
  return ⟨gate, experts, sharedExperts, config.numExpertsPerTok, config.normTopkProb⟩

/-! ## One layer -/

/-- The weights of one local layer; a norm that the checkpoint lacks keeps its initial
    value. -/
structure LayerWeights (α : Type) where
  inputLayernorm : Option (Tensor α)
  postAttentionLayernorm : Option (Tensor α)
  projections : ProjectionTensors α
  mlp : Option (MlpWeights α)
  moe : Option (MoeWeights α)
deriving DecidableEq

/-- A norm weight, checked and converted. -/
def installNorm (cast : α → α) (config : DeepseekV2Config) (tensor : Option (Tensor α))
    (message : String) : Except LoadError (Option (Tensor α)) := do
  checkShape tensor (some [config.hiddenSize]) message
  return tensor.map (Tensor.cast cast)

/-- `_coerce_scaffold_tensor` on every projection. -/
def ProjectionTensors.cast (f : α → α) (p : ProjectionTensors α) : ProjectionTensors α where
  qProj := p.qProj.map (Tensor.cast f)
  qAProj := p.qAProj.map (Tensor.cast f)
  qALayernormWeight := p.qALayernormWeight.map (Tensor.cast f)
  qBProj := p.qBProj.map (Tensor.cast f)
  kvLatentProj := p.kvLatentProj.map (Tensor.cast f)
  kvALayernormWeight := p.kvALayernormWeight.map (Tensor.cast f)
  kRopeProj := p.kRopeProj.map (Tensor.cast f)
  kvUpProj := p.kvUpProj.map (Tensor.cast f)
  oProj := p.oProj.map (Tensor.cast f)

/-- The attention projections of one layer. -/
def installProjections (cast : α → α) (stage : Stage) (layerIdx : Nat) (layer : LayerTensors α) :
    Except LoadError (ProjectionTensors α) := do
  let projections := coerceProjections stage (resolveCombined stage.config layer)
  let missing := missingProjectionKeys projections
  raiseIf (!missing.isEmpty) (.keyError ("Missing scaffold weights for layer " ++
    toString layerIdx ++ ": " ++ ", ".intercalate missing))
  makeProjectionWeights stage (projections.cast cast)

/-- The routed experts of one layer, those that the checkpoint has. -/
def installExperts (cast : α → α) (stage : Stage) (globalLayerIdx : Nat)
    (experts : List (MlpTensors α)) : Except LoadError (List (MlpWeights α)) := do
  let weights ← experts.zipIdx.mapM fun (tensors, expertIdx) => do
    let tensors ← normalizeMlpTensorLayouts stage (tensors.cast cast)
      stage.config.moeIntermediateSize
    makeOptionalMlpWeights stage.config.hiddenSize tensors fun exc =>
      .keyError ("Incomplete routed expert weights for layer " ++ toString globalLayerIdx ++
        " expert " ++ toString expertIdx ++ ": " ++ exc)
  return weights.filterMap id

/-- The dense MLP or the experts of one layer. -/
def installMlp (cast : α → α) (stage : Stage) (strict : Bool) (layerIdx : Nat)
    (layer : LayerTensors α) :
    Except LoadError (Option (MlpWeights α) × Option (MoeWeights α)) := do
  let config := stage.config
  let globalLayerIdx := stage.layerOffset + layerIdx
  let mlp ← normalizeMlpTensorLayouts stage layer.mlp config.intermediateSize
  let mlp := mlp.cast cast
  let routedGate := layer.gate.map (Tensor.cast cast)
  let sharedTensors ← normalizeMlpTensorLayouts stage (layer.sharedExperts.cast cast)
    (config.moeIntermediateSize.map (· * max 1 config.nSharedExperts))
  let routedExperts ← installExperts cast stage globalLayerIdx layer.experts
  let hasMoeWeights := routedGate.isSome || layer.moeNames ||
    decide (sharedTensors.missing.length ≠ 3) || !routedExperts.isEmpty
  if mlp.missing.length ≠ 3 then
    raiseIf hasMoeWeights (.valueError
      ("Layer " ++ toString globalLayerIdx ++ " provides both dense MLP and MoE weights"))
    match mlp.gateProj, mlp.upProj, mlp.downProj with
    | some gateProj, some upProj, some downProj =>
      let weights ← makeMlpWeights config.hiddenSize gateProj upProj downProj
      return (some weights, none)
    | _, _, _ =>
      raiseIf strict (.keyError ("Missing scaffold MLP weights for layer " ++
        toString layerIdx ++ ": " ++ ", ".intercalate mlp.missing))
      return (none, none)
  else if hasMoeWeights then
    raiseIf (config.firstKDenseReplace.isNone || config.nRoutedExperts == 0)
      (.notImplementedError "DeepSeek-V2 MoE weights require MoE-aware config fields")
    raiseIf (config.firstKDenseReplace.any (globalLayerIdx < ·)) (.valueError
      ("Layer " ++ toString globalLayerIdx ++ " carries MoE weights before first_k_dense_replace"))
    match routedGate with
    | none =>
      throw (.keyError ("Missing scaffold MoE gate weights for layer " ++ toString globalLayerIdx))
    | some gate =>
      raiseIf (routedExperts.length != config.nRoutedExperts) (.keyError
        ("Missing routed expert weights for layer " ++ toString globalLayerIdx ++ ": expected " ++
          toString config.nRoutedExperts ++ ", found " ++ toString routedExperts.length))
      let sharedExperts ← makeOptionalMlpWeights config.hiddenSize sharedTensors fun exc =>
        .keyError ("Incomplete shared expert weights for layer " ++ toString globalLayerIdx ++
          ": " ++ exc)
      let moe ← makeMoeWeights config gate routedExperts sharedExperts
      return (none, some moe)
  else return (none, none)

/-- One turn of the loop over the layers, from the tensors that were looked up. -/
def installLayer (cast : α → α) (stage : Stage) (strict : Bool) (layerIdx : Nat)
    (layer : LayerTensors α) : Except LoadError (LayerWeights α) := do
  let inputLayernorm ← installNorm cast stage.config layer.inputLayernorm
    "input_layernorm.weight shape does not match scaffold hidden size"
  let postAttentionLayernorm ← installNorm cast stage.config layer.postAttentionLayernorm
    "post_attention_layernorm.weight shape does not match scaffold hidden size"
  let projections ← installProjections cast stage layerIdx layer
  let (mlp, moe) ← installMlp cast stage strict layerIdx layer
  return ⟨inputLayernorm, postAttentionLayernorm, projections, mlp, moe⟩

/-! ## One stage -/

/-- The weights of a stage; `none` for a weight that the stage lacks or that was not loaded. -/
structure StageWeights (α : Type) where
  embedTokens : Option (Tensor α)
  norm : Option (Tensor α)
  lmHead : Option (Tensor α)
  layers : List (LayerWeights α)
deriving DecidableEq

/-- A weight outside the layers, under its name or the fallback name. -/
def loadGlobalWeight (cast : α → α) (stateDict : StateDict α) (key fallback : String)
    (required : Bool) (expected : List Nat) (message : String) :
    Except LoadError (Option (Tensor α)) := do
  let tensor := getScaffoldTensor stateDict [key, fallback]
  raiseIf (tensor.isNone && required) (.keyError ("Missing scaffold weight: " ++ key))
  checkShape tensor (some expected) message
  return tensor.map (Tensor.cast cast)

/-- The embedding of the first stage and the final norm and head of the last. -/
def loadGlobalWeights (cast : α → α) (stage : Stage) (stateDict : StateDict α) (strict : Bool) :
    Except LoadError (Option (Tensor α) × Option (Tensor α) × Option (Tensor α)) := do
  let hiddenSize := stage.config.hiddenSize
  let embedTokens ←
    match stage.isFirst, stage.config.vocabSize with
    | true, some vocabSize =>
      loadGlobalWeight cast stateDict "model.embed_tokens.weight" "embed_tokens.weight" strict
        [vocabSize, hiddenSize]
        "model.embed_tokens.weight shape does not match scaffold embedding size"
    | _, _ => pure none
  let norm ←
    if stage.isLast then
      loadGlobalWeight cast stateDict "model.norm.weight" "norm.weight" false [hiddenSize]
        "model.norm.weight shape does not match scaffold final norm size"
    else pure none
  let lmHead ←
    match stage.isLast, stage.config.vocabSize with
    | true, some vocabSize =>
      loadGlobalWeight cast stateDict "lm_head.weight" "model.lm_head.weight" strict
        [vocabSize, hiddenSize]
        "lm_head.weight shape does not match scaffold vocabulary projection size"
    | _, _ => pure none
  return (embedTokens, norm, lmHead)

/-- `set_scaffold_weights`: the three tuples have one entry for each local layer by
    construction. -/
def setScaffoldWeights (layers : List (LayerWeights α)) : Except LoadError Unit :=
  layers.zipIdx.forM fun (layer, layerIdx) =>
    raiseIf (layer.mlp.isSome && layer.moe.isSome) (.valueError
      ("layer " ++ toString layerIdx ++ " cannot install both dense MLP and MoE weights"))

/-- The loader over any source of layer tensors. -/
def loadLayersFrom (cast : α → α) (stage : Stage) (stateDict : StateDict α) (strict : Bool)
    (source : Nat → LayerSource α) : Except LoadError (StageWeights α) := do
  let (embedTokens, norm, lmHead) ← loadGlobalWeights cast stage stateDict strict
  let layers ← (List.range stage.numLayers).mapM fun layerIdx =>
    installLayer cast stage strict layerIdx
      (fetchLayer stage.config.nRoutedExperts (source layerIdx))
  setScaffoldWeights layers
  return ⟨embedTokens, norm, lmHead, layers⟩

/-- `load_scaffold_state_dict` -/
def loadScaffoldStateDict (cast : α → α) (stage : Stage) (stateDict : StateDict α)
    (strict : Bool) : Except LoadError (StageWeights α) :=
  loadLayersFrom cast stage stateDict strict (candidateSource stateDict stage.layerOffset)

end VAttention.Weights
