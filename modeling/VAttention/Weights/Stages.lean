import VAttention.Weights.Model

/-!
# Which layer a pipeline stage loads

The loader looks a tensor of local layer `i` up under `model.layers.i` before it tries
`model.layers.(o + i)`, where `o` is the offset of the stage.  A checkpoint of the whole model
has both names as soon as `o` is positive, and then the tensor of global layer `i` is taken:
layer `o + i` gets the weights of another layer, or, where one of the two is dense and the
other a mixture of experts, the load fails.

The tensors are those of layer `o + i` exactly where no other candidate name stands before
its own one with a different tensor; on the first stage that is always so for a checkpoint
with HuggingFace names only.
-/

namespace VAttention.Weights

open VAttention.Lib

variable {α : Type}

/-! ## The tensors of a global layer -/

/-- The tensors of one global layer under their HuggingFace names, and nothing else. -/
def globalSource (stateDict : StateDict α) (globalIdx : Nat) : LayerSource α where
  tensor block weight := stateDict.lookup (modelLayerName globalIdx block ++ weight)
  moeNames := hasMoeLayerWeights stateDict [modelLayerName globalIdx "mlp"]

/-- Loading each local layer from the tensors of its own global layer. -/
def loadGlobalLayers (cast : α → α) (stage : Stage) (stateDict : StateDict α) (strict : Bool) :
    Except LoadError (StageWeights α) :=
  loadLayersFrom cast stage stateDict strict fun layerIdx =>
    globalSource stateDict (stage.layerOffset + layerIdx)

/-- The tensors that are loaded into a local layer are those of its global layer. -/
def LoadsOwnLayer (stage : Stage) (stateDict : StateDict α) (layerIdx : Nat) : Prop :=
  fetchLayer stage.config.nRoutedExperts
      (candidateSource stateDict stage.layerOffset layerIdx) =
    fetchLayer stage.config.nRoutedExperts
      (globalSource stateDict (stage.layerOffset + layerIdx))

instance [DecidableEq α] (stage : Stage) (stateDict : StateDict α) (layerIdx : Nat) :
    Decidable (LoadsOwnLayer stage stateDict layerIdx) :=
  inferInstanceAs (Decidable (_ = _))

/-! ## The names of one layer -/

/-- Names of the three matrices of an MLP below a path. -/
def mlpNames (path : String) : List (String × String) :=
  [("mlp", path ++ ".gate_proj.weight"), ("mlp", path ++ ".up_proj.weight"),
    ("mlp", path ++ ".down_proj.weight")]

/-- Every name that is looked up for one layer, as its block and the rest. -/
def weightNames (nRoutedExperts : Nat) : List (String × String) :=
  [("input_layernorm", ".weight"), ("post_attention_layernorm", ".weight"),
    ("self_attn", ".q_proj.weight"), ("self_attn", ".q_a_proj.weight"),
    ("self_attn", ".q_a_layernorm.weight"), ("self_attn", ".q_b_proj.weight"),
    ("self_attn", ".kv_latent_proj.weight"), ("self_attn", ".kv_a_layernorm.weight"),
    ("self_attn", ".k_rope_proj.weight"), ("self_attn", ".kv_up_proj.weight"),
    ("self_attn", ".o_proj.weight"), ("self_attn", ".kv_a_proj_with_mqa.weight"),
    ("self_attn", ".kv_b_proj.weight")] ++
  (mlpNames "" ++ (("mlp", ".gate.weight") :: (mlpNames ".shared_experts" ++
    (List.range nRoutedExperts).flatMap fun expertIdx =>
      mlpNames (".experts." ++ toString expertIdx))))

/-- What stands under the other candidate names of a local layer does not hide the tensor of
    its global layer. -/
structure NotShadowed (stage : Stage) (stateDict : StateDict α) (layerIdx : Nat) : Prop where
  /-- A tensor under the local index is also the one under the global index. -/
  localName : ∀ name ∈ weightNames stage.config.nRoutedExperts,
    stateDict.lookup (modelLayerName layerIdx name.1 ++ name.2) = none ∨
    stateDict.lookup (modelLayerName layerIdx name.1 ++ name.2) =
      stateDict.lookup (modelLayerName (stage.layerOffset + layerIdx) name.1 ++ name.2)
  /-- A name without `model.` occurs only beside its full name. -/
  shortName : ∀ name ∈ weightNames stage.config.nRoutedExperts,
    stateDict.lookup (modelLayerName layerIdx name.1 ++ name.2) = none →
    stateDict.lookup (modelLayerName (stage.layerOffset + layerIdx) name.1 ++ name.2) = none →
    stateDict.lookup (layerName layerIdx name.1 ++ name.2) = none ∧
    stateDict.lookup (layerName (stage.layerOffset + layerIdx) name.1 ++ name.2) = none
  /-- Expert weights under another candidate name only if the global layer has some. -/
  experts : hasMoeLayerWeights stateDict [modelLayerName layerIdx "mlp",
      layerName layerIdx "mlp", layerName (stage.layerOffset + layerIdx) "mlp"] = true →
    hasMoeLayerWeights stateDict [modelLayerName (stage.layerOffset + layerIdx) "mlp"] = true

/-! ## From names to tensors -/

/-- Two MLPs are the same exactly where their three names give the same tensors. -/
theorem fetchMlp_eq_iff {source source' : LayerSource α} {path : String} :
    fetchMlp source path = fetchMlp source' path ↔
      ∀ name ∈ mlpNames path, source.tensor name.1 name.2 = source'.tensor name.1 name.2 := by
  simp [fetchMlp, mlpNames]

/-- Two sources give the same layer exactly where they agree on every name of a layer and on
    the scan for expert weights. -/
theorem fetchLayer_eq_iff {n : Nat} {source source' : LayerSource α} :
    fetchLayer n source = fetchLayer n source' ↔
      (∀ name ∈ weightNames n, source.tensor name.1 name.2 = source'.tensor name.1 name.2) ∧
      source.moeNames = source'.moeNames := by
  have hexperts : ((List.range n).map fun e => fetchMlp source (".experts." ++ toString e)) =
        ((List.range n).map fun e => fetchMlp source' (".experts." ++ toString e)) ↔
      ∀ name ∈ (List.range n).flatMap fun e => mlpNames (".experts." ++ toString e),
        source.tensor name.1 name.2 = source'.tensor name.1 name.2 := by
    simp only [List.map_inj_left, fetchMlp_eq_iff, List.mem_flatMap]
    constructor
    · rintro h name ⟨e, he, hname⟩
      exact h e he name hname
    · exact fun h e he name hname => h name ⟨e, he, hname⟩
  simp only [fetchLayer, LayerTensors.mk.injEq, ProjectionTensors.mk.injEq, fetchMlp_eq_iff,
    hexperts, weightNames, List.forall_mem_append, List.forall_mem_cons, List.not_mem_nil,
    IsEmpty.forall_iff, implies_true, and_true, and_assoc]

/-- The second of four candidates is the one found exactly where the first is absent or the
    same, and the last two are absent when the first two are. -/
theorem findSome_second {a b c d : Option (Tensor α)} :
    [a, b, c, d].findSome? id = b ↔
      (a = none ∨ a = b) ∧ (a = none → b = none → c = none ∧ d = none) := by
  cases a <;> cases b <;> cases c <;> simp

/-- Under the candidate names of a local layer, a tensor of the global layer is found exactly
    where it is not hidden. -/
theorem candidate_tensor_eq_iff {stateDict : StateDict α} {offset layerIdx : Nat}
    {block weight : String} :
    (candidateSource stateDict offset layerIdx).tensor block weight =
        (globalSource stateDict (offset + layerIdx)).tensor block weight ↔
      (stateDict.lookup (modelLayerName layerIdx block ++ weight) = none ∨
        stateDict.lookup (modelLayerName layerIdx block ++ weight) =
          stateDict.lookup (modelLayerName (offset + layerIdx) block ++ weight)) ∧
      (stateDict.lookup (modelLayerName layerIdx block ++ weight) = none →
        stateDict.lookup (modelLayerName (offset + layerIdx) block ++ weight) = none →
        stateDict.lookup (layerName layerIdx block ++ weight) = none ∧
        stateDict.lookup (layerName (offset + layerIdx) block ++ weight) = none) :=
  findSome_second

/-- The scan over several prefixes finds a name exactly where the scan over one of them does. -/
theorem hasMoeLayerWeights_iff (stateDict : StateDict α) (layerPrefixes : List String) :
    hasMoeLayerWeights stateDict layerPrefixes = true ↔
      ∃ mlp ∈ layerPrefixes, hasMoeLayerWeights stateDict [mlp] = true := by
  simp only [hasMoeLayerWeights, List.any_eq_true, List.mem_flatMap, List.flatMap_cons,
    List.flatMap_nil, List.append_nil]
  constructor
  · rintro ⟨entry, hentry, candidate, ⟨mlp, hmlp, hcandidate⟩, hname⟩
    exact ⟨mlp, hmlp, entry, hentry, candidate, hcandidate, hname⟩
  · rintro ⟨mlp, hmlp, entry, hentry, candidate, hcandidate, hname⟩
    exact ⟨entry, hentry, candidate, ⟨mlp, hmlp, hcandidate⟩, hname⟩

theorem candidate_moeNames_eq_iff {stateDict : StateDict α} {offset layerIdx : Nat} :
    (candidateSource stateDict offset layerIdx).moeNames =
        (globalSource stateDict (offset + layerIdx)).moeNames ↔
      (hasMoeLayerWeights stateDict [modelLayerName layerIdx "mlp", layerName layerIdx "mlp",
          layerName (offset + layerIdx) "mlp"] = true →
        hasMoeLayerWeights stateDict [modelLayerName (offset + layerIdx) "mlp"] = true) := by
  rw [Bool.eq_iff_iff]
  simp only [candidateSource, globalSource]
  rw [hasMoeLayerWeights_iff stateDict (candidateLayerPrefixes ..),
    hasMoeLayerWeights_iff stateDict [modelLayerName layerIdx "mlp", _, _]]
  simp only [candidateLayerPrefixes, List.exists_mem_cons_iff, List.not_mem_nil]
  grind

/-- **A layer gets its own tensors exactly where no other candidate name hides them.** -/
theorem loadsOwnLayer_iff {stage : Stage} {stateDict : StateDict α} {layerIdx : Nat} :
    LoadsOwnLayer stage stateDict layerIdx ↔ NotShadowed stage stateDict layerIdx := by
  rw [LoadsOwnLayer, fetchLayer_eq_iff, candidate_moeNames_eq_iff]
  constructor
  · rintro ⟨htensors, hmoe⟩
    exact ⟨fun name hname => (candidate_tensor_eq_iff.mp (htensors name hname)).1,
      fun name hname => (candidate_tensor_eq_iff.mp (htensors name hname)).2, hmoe⟩
  · intro h
    refine ⟨fun name hname => ?_, h.experts⟩
    exact candidate_tensor_eq_iff.mpr ⟨h.localName name hname, h.shortName name hname⟩

/-! ## The stages together -/

/-- Every global layer belongs to exactly one local layer of one stage. -/
theorem exists_unique_stage_layer {stage : Stage} {globalIdx : Nat}
    (h : globalIdx < stage.config.numHiddenLayers) :
    ∃! place : Nat × Nat, place.1 < stage.pipelineWorldSize ∧ place.2 < stage.numLayers ∧
      place.1 * stage.numLayers + place.2 = globalIdx := by
  have htotal : stage.pipelineWorldSize * stage.numLayers = stage.config.numHiddenLayers :=
    Nat.mul_div_cancel' (Nat.dvd_of_mod_eq_zero stage.layers_dvd)
  have hpos : 0 < stage.numLayers := by
    refine Nat.pos_of_ne_zero fun hzero => ?_
    rw [hzero, Nat.mul_zero] at htotal
    omega
  refine ⟨(globalIdx / stage.numLayers, globalIdx % stage.numLayers), ⟨?_, ?_, ?_⟩, ?_⟩
  · exact (Nat.div_lt_iff_lt_mul hpos).mpr (htotal ▸ h)
  · exact Nat.mod_lt _ hpos
  · rw [Nat.mul_comm]
    exact Nat.div_add_mod ..
  · rintro ⟨rank, layerIdx⟩ ⟨-, hlayer, rfl⟩
    refine Prod.ext ?_ ?_
    · rw [Nat.mul_comm, Nat.mul_add_div hpos, Nat.div_eq_of_lt hlayer, Nat.add_zero]
    · rw [Nat.mul_comm, Nat.mul_add_mod, Nat.mod_eq_of_lt hlayer]

/-- **Weights of a pipeline stage.**  A stage loads into each of its layers the tensors of that
    layer's global index exactly where no other candidate name hides them; then the whole load
    is the one from the stage's own layers; and the layers of the stages are the layers of the
    model, each once. -/
theorem stage_loads_own_layers_iff (cast : α → α) (stage : Stage) (stateDict : StateDict α)
    (strict : Bool) :
    ((∀ layerIdx < stage.numLayers, LoadsOwnLayer stage stateDict layerIdx) ↔
      ∀ layerIdx < stage.numLayers, NotShadowed stage stateDict layerIdx) ∧
    ((∀ layerIdx < stage.numLayers, NotShadowed stage stateDict layerIdx) →
      loadScaffoldStateDict cast stage stateDict strict =
        loadGlobalLayers cast stage stateDict strict) ∧
    ∀ globalIdx < stage.config.numHiddenLayers,
      ∃! place : Nat × Nat, place.1 < stage.pipelineWorldSize ∧ place.2 < stage.numLayers ∧
        place.1 * stage.numLayers + place.2 = globalIdx := by
  refine ⟨?_, fun hown => ?_, fun globalIdx => exists_unique_stage_layer⟩
  · exact forall₂_congr fun layerIdx _ => loadsOwnLayer_iff
  · have hlayers : ((List.range stage.numLayers).mapM fun layerIdx =>
          installLayer cast stage strict layerIdx (fetchLayer stage.config.nRoutedExperts
            (candidateSource stateDict stage.layerOffset layerIdx))) =
        (List.range stage.numLayers).mapM fun layerIdx =>
          installLayer cast stage strict layerIdx (fetchLayer stage.config.nRoutedExperts
            (globalSource stateDict (stage.layerOffset + layerIdx))) := by
      refine mapM_congr_of_mem fun layerIdx hlayer => ?_
      have hload := loadsOwnLayer_iff.mpr (hown layerIdx (List.mem_range.mp hlayer))
      exact congrArg (installLayer cast stage strict layerIdx) hload
    simp only [loadScaffoldStateDict, loadGlobalLayers, loadLayersFrom, hlayers]

/-! ## A checkpoint of two layers -/

/-- A model with two layers of the smallest sizes. -/
def twoLayerConfig : DeepseekV2Config where
  hiddenSize := 1
  numHiddenLayers := 2
  numAttentionHeads := 1
  qLoraRank := none
  kvLoraRank := 1
  qkNopeHeadDim := 1
  qkRopeHeadDim := 1
  vHeadDim := 1
  nRoutedExperts := 1
  firstKDenseReplace := some 1

/-- One of the two stages of that model. -/
def twoLayerStage (rank : Fin 2) : Stage where
  config := twoLayerConfig
  tp := ⟨1, 0⟩
  pipelineWorldSize := 2
  pipelineRank := rank
  rank_lt := rank.isLt
  layers_dvd := rfl
  heads_dvd := rfl

/-- Norms and attention of one layer under the HuggingFace names, all entries `value`. -/
def attentionEntries (layerIdx value : Nat) : StateDict Nat :=
  let matrix := fun rows cols => Tensor.matrix ⟨rows, cols, fun _ _ => value⟩
  let vector := Tensor.other [1] (by decide) [value]
  [(modelLayerName layerIdx "input_layernorm.weight", vector),
    (modelLayerName layerIdx "post_attention_layernorm.weight", vector),
    (modelLayerName layerIdx "self_attn.q_proj.weight", matrix 2 1),
    (modelLayerName layerIdx "self_attn.kv_a_proj_with_mqa.weight", matrix 2 1),
    (modelLayerName layerIdx "self_attn.kv_b_proj.weight", matrix 2 1),
    (modelLayerName layerIdx "self_attn.o_proj.weight", matrix 1 1)]

/-- The three matrices of an MLP of one layer. -/
def mlpEntries (layerIdx value : Nat) (path : String) : StateDict Nat :=
  ["gate_proj.weight", "up_proj.weight", "down_proj.weight"].map fun weight =>
    (modelLayerName layerIdx (path ++ weight), .matrix ⟨1, 1, fun _ _ => value⟩)

/-- Two dense layers, told apart by their entries. -/
def denseCheckpoint : StateDict Nat :=
  attentionEntries 0 10 ++ mlpEntries 0 10 "mlp." ++ attentionEntries 1 11 ++
    mlpEntries 1 11 "mlp."

/-- A dense layer and a layer with one expert. -/
def mixedCheckpoint : StateDict Nat :=
  attentionEntries 0 10 ++ mlpEntries 0 10 "mlp." ++ attentionEntries 1 11 ++
    mlpEntries 1 11 "mlp.experts.0." ++
    [(modelLayerName 1 "mlp.gate.weight", .matrix ⟨1, 1, fun _ _ => 11⟩)]

/-- The second stage loads layer 0 of the dense checkpoint in place of layer 1, and fails on
    the mixed one. -/
theorem second_stage_loads_first_layer :
    (loadScaffoldStateDict id (twoLayerStage 1) denseCheckpoint true).map
        (fun weights => weights.layers.map (·.inputLayernorm)) =
      .ok [some (.other [1] (by decide) [10])] ∧
    (loadGlobalLayers id (twoLayerStage 1) denseCheckpoint true).map
        (fun weights => weights.layers.map (·.inputLayernorm)) =
      .ok [some (.other [1] (by decide) [11])] ∧
    ¬ LoadsOwnLayer (twoLayerStage 1) denseCheckpoint 0 ∧
    loadScaffoldStateDict id (twoLayerStage 1) mixedCheckpoint true =
      .error (.valueError "Layer 1 provides both dense MLP and MoE weights") := by
  refine ⟨?_, ?_, ?_, ?_⟩ <;> decide +kernel

/-- On the first stage of the dense checkpoint the local names are the global ones. -/
theorem first_stage_loads_own_layers :
    loadScaffoldStateDict id (twoLayerStage 0) denseCheckpoint true =
      loadGlobalLayers id (twoLayerStage 0) denseCheckpoint true := by
  obtain ⟨hiff, hload, -⟩ :=
    stage_loads_own_layers_iff id (twoLayerStage 0) denseCheckpoint true
  exact hload (hiff.mp (by decide +kernel))

end VAttention.Weights
