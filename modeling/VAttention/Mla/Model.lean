import Mathlib.Data.Fin.Tuple.Basic
import VAttention.Lib.Blocks

/-!
# Multi-head latent attention

Model of the attention half of `models/deepseek_v2.py`.  A tensor of shape `[tokens, d]` is the
list of its rows.  The resident cache keeps one latent row and one rope row for each token; keys
and values of all heads are reconstructed from them by `kv_up_proj`.  Normalisations are functions
on rows, and so is attention: `attend` takes the query of a head at some position and the keys and
values of that head up to this position.
-/

namespace VAttention.Mla

open Matrix VAttention.Lib.Blocks

/-- A row of a tensor. -/
abbrev Row (R : Type) (d : Nat) := Fin d → R

/-- A tensor of shape `[tokens, d]`. -/
abbrev Rows (R : Type) (d : Nat) := List (Row R d)

/-- The sizes of `DeepseekV2MLADims` that all ranks share.  The number of heads of a rank is a
    parameter of its own. -/
structure MlaDims where
  hiddenSize : Nat
  kvLoraRank : Nat
  qkNopeHeadDim : Nat
  qkRopeHeadDim : Nat
  vHeadDim : Nat
  deriving DecidableEq, Repr

/-- `q_head_dim`. -/
abbrev MlaDims.qHeadDim (dims : MlaDims) : Nat := dims.qkNopeHeadDim + dims.qkRopeHeadDim

variable {R : Type} {dims : MlaDims} {n : Nat}

/-! ## The resident cache -/

/-- `DeepseekV2MLAResidentCache`, with the check of `__post_init__` and `make_resident_cache`. -/
@[ext]
structure ResidentCache (R : Type) (dims : MlaDims) where
  kvLatent : Rows R dims.kvLoraRank
  kRope : Rows R dims.qkRopeHeadDim
  length_eq : kvLatent.length = kRope.length

/-- `num_tokens`. -/
def ResidentCache.numTokens (cache : ResidentCache R dims) : Nat := cache.kvLatent.length

/-- `append_resident_cache`. -/
def appendResidentCache (cache : Option (ResidentCache R dims)) (newCache : ResidentCache R dims) :
    ResidentCache R dims :=
  match cache with
  | none => newCache
  | some cache => {
      kvLatent := cache.kvLatent ++ newCache.kvLatent
      kRope := cache.kRope ++ newCache.kRope
      length_eq := by rw [List.length_append, List.length_append, cache.length_eq,
        newCache.length_eq] }

/-- `0 if cache is None else cache.num_tokens`. -/
def pastLen (cache : Option (ResidentCache R dims)) : Nat :=
  match cache with
  | none => 0
  | some cache => cache.numTokens

section Reconstruction

variable [CommRing R]

/-- `reconstruct_dense_kv`: the keys and the values of all heads, token by token. -/
def reconstructDenseKv (cache : ResidentCache R dims)
    (kvUpProj : Matrix (Fin dims.kvLoraRank)
      (Fin (n * (dims.qkNopeHeadDim + dims.vHeadDim))) R) :
    List (Fin n → Row R dims.qHeadDim) × List (Fin n → Row R dims.vHeadDim) :=
  let kvDense := cache.kvLatent.map fun latent => group (latent ᵥ* kvUpProj)
  let kNope := kvDense.map fun kv head j => kv head (Fin.castAdd dims.vHeadDim j)
  let value := kvDense.map fun kv head j => kv head (Fin.natAdd dims.qkNopeHeadDim j)
  let key := List.zipWith (fun (nope : Fin n → Row R dims.qkNopeHeadDim) rope head =>
    Fin.append (nope head) rope) kNope cache.kRope
  (key, value)

/-! ## Attention -/

/-- `split_query_projection`. -/
def splitQueryProjection (queryStates : Rows R (n * dims.qHeadDim)) :
    List (Fin n → Row R dims.qkNopeHeadDim) × List (Fin n → Row R dims.qkRopeHeadDim) :=
  let heads := queryStates.map group
  (heads.map fun q head j => q head (Fin.castAdd dims.qkRopeHeadDim j),
    heads.map fun q head j => q head (Fin.natAdd dims.qkNopeHeadDim j))

/-- `torch.cat([q_nope, q_rope], dim=-1)`. -/
def joinQuery (qNope : List (Fin n → Row R dims.qkNopeHeadDim))
    (qRope : List (Fin n → Row R dims.qkRopeHeadDim)) : List (Fin n → Row R dims.qHeadDim) :=
  List.zipWith (fun nope rope head => Fin.append (nope head) (rope head)) qNope qRope

/-- Attention of one head at one position: its query, and the keys and values it may see. -/
abbrev Attend (R : Type) (dims : MlaDims) :=
  Row R dims.qHeadDim → List (Row R dims.qHeadDim × Row R dims.vHeadDim) → Row R dims.vHeadDim

/-- Causal attention for queries that follow `pastLen` tokens: the query of token `i` sees the
    sources up to position `pastLen + i`. -/
def causalAttention {q d : Nat} (attend : Row R q → List (Row R q × Row R d) → Row R d)
    (pastLen : Nat) (query key : List (Fin n → Row R q)) (value : List (Fin n → Row R d)) :
    List (Fin n → Row R d) :=
  query.zipIdx.map fun (q, i) head =>
    attend (q head) (((key.zip value).take (pastLen + i + 1)).map fun kv => (kv.1 head, kv.2 head))

/-- `contiguous_mla_attention_forward`. -/
def contiguousMlaAttentionForward (attend : Attend R dims)
    (queryStates : Rows R (n * dims.qHeadDim)) (newCache : ResidentCache R dims)
    (kvUpProj : Matrix (Fin dims.kvLoraRank)
      (Fin (n * (dims.qkNopeHeadDim + dims.vHeadDim))) R)
    (cache : Option (ResidentCache R dims)) :
    Rows R (n * dims.vHeadDim) × ResidentCache R dims :=
  let (qNope, qRope) := splitQueryProjection queryStates
  let fullCache := appendResidentCache cache newCache
  let (key, value) := reconstructDenseKv fullCache kvUpProj
  let query := joinQuery qNope qRope
  ((causalAttention attend (pastLen cache) query key value).map ungroup, fullCache)

/-! ## The rows of the result -/

/-- The key and the value of one head for a token of the cache. -/
def denseKv (kvUpProj : Matrix (Fin dims.kvLoraRank)
      (Fin (n * (dims.qkNopeHeadDim + dims.vHeadDim))) R) (head : Fin n)
    (latent : Row R dims.kvLoraRank) (rope : Row R dims.qkRopeHeadDim) :
    Row R dims.qHeadDim × Row R dims.vHeadDim :=
  let kv := group (latent ᵥ* kvUpProj) head
  (Fin.append (fun j => kv (Fin.castAdd _ j)) rope, fun j => kv (Fin.natAdd _ j))

/-- What one head sees of a cache. -/
def headKv (kvUpProj : Matrix (Fin dims.kvLoraRank)
      (Fin (n * (dims.qkNopeHeadDim + dims.vHeadDim))) R) (cache : ResidentCache R dims)
    (head : Fin n) : List (Row R dims.qHeadDim × Row R dims.vHeadDim) :=
  List.zipWith (denseKv kvUpProj head) cache.kvLatent cache.kRope

/-- The output row of the query of a token that follows `position` tokens of the cache. -/
def attendRow (attend : Attend R dims) (kvUpProj : Matrix (Fin dims.kvLoraRank)
      (Fin (n * (dims.qkNopeHeadDim + dims.vHeadDim))) R) (cache : ResidentCache R dims)
    (query : Row R (n * dims.qHeadDim)) (position : Nat) : Row R (n * dims.vHeadDim) :=
  ungroup fun head =>
    attend (group query head) ((headKv kvUpProj cache head).take (position + 1))

omit [CommRing R] in
/-- Splitting the query and joining the parts changes nothing. -/
theorem joinQuery_splitQueryProjection (queryStates : Rows R (n * dims.qHeadDim)) :
    joinQuery (splitQueryProjection queryStates).1 (splitQueryProjection queryStates).2 =
      queryStates.map group := by
  simp only [joinQuery, splitQueryProjection, List.zipWith_map, List.map_map, List.zipWith_self]
  refine List.map_congr_left fun q _ => ?_
  ext head j
  exact congrFun (Fin.append_castAdd_natAdd) j

/-- The reconstructed keys and values of one head. -/
theorem map_zip_reconstructDenseKv (cache : ResidentCache R dims)
    (kvUpProj : Matrix (Fin dims.kvLoraRank)
      (Fin (n * (dims.qkNopeHeadDim + dims.vHeadDim))) R) (head : Fin n) :
    (((reconstructDenseKv cache kvUpProj).1.zip (reconstructDenseKv cache kvUpProj).2).map
      fun kv => (kv.1 head, kv.2 head)) = headKv kvUpProj cache head := by
  apply List.ext_getElem
  · simp [reconstructDenseKv, headKv, cache.length_eq]
  · intro i hi hi'
    simp [reconstructDenseKv, headKv, denseKv]

/-- **Every row is the attention of one token** over the cache up to its position. -/
theorem contiguousMlaAttentionForward_eq (attend : Attend R dims)
    (queryStates : Rows R (n * dims.qHeadDim)) (newCache : ResidentCache R dims)
    (kvUpProj : Matrix (Fin dims.kvLoraRank)
      (Fin (n * (dims.qkNopeHeadDim + dims.vHeadDim))) R)
    (cache : Option (ResidentCache R dims)) :
    contiguousMlaAttentionForward attend queryStates newCache kvUpProj cache =
      (queryStates.zipIdx.map fun (q, i) =>
          attendRow attend kvUpProj (appendResidentCache cache newCache) q (pastLen cache + i),
        appendResidentCache cache newCache) := by
  simp only [contiguousMlaAttentionForward, joinQuery_splitQueryProjection, causalAttention,
    List.zipIdx_map, List.map_map]
  congr 1
  refine List.map_congr_left fun q _ => congrArg ungroup (funext fun head => ?_)
  simp only [List.map_take, map_zip_reconstructDenseKv]
  rfl

end Reconstruction

end VAttention.Mla
