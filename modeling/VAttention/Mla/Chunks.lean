import VAttention.Lib.Runs
import VAttention.Mla.Wrapper

/-!
# Chunked prefill and decode over the component cache

Several sequences, each with a batch index of its own, are advanced call by call: a call takes a
chunk of some sequences as prefill and one token of others as decode.  Whatever the chunks and
their order, each call returns for its tokens the rows that attention over the whole sequence in
one shot has there, and the cache then holds the rows of all tokens so far.

Two conditions are needed: values must not be wider than queries, which is the check of
`_pad_value_heads_for_flash_attention`, and a sequence must not have more tokens than the cache has
rows.
-/

namespace VAttention.Mla

open Matrix VAttention.Core VAttention.Lib VAttention.Lib.Blocks

variable {R : Type} {dims : MlaDims} {n batchSize maxSeqLen : Nat} {ι : Type}

/-! ## Tokens -/

/-- What the projections make of one token. -/
structure MlaToken (R : Type) (dims : MlaDims) (n : Nat) where
  query : Row R (n * dims.qHeadDim)
  latent : Row R dims.kvLoraRank
  rope : Row R dims.qkRopeHeadDim

/-- The resident rows of some tokens. -/
def ResidentCache.ofTokens (tokens : List (MlaToken R dims n)) : ResidentCache R dims where
  kvLatent := tokens.map MlaToken.latent
  kRope := tokens.map MlaToken.rope
  length_eq := by rw [List.length_map, List.length_map]

/-- The resident rows before a call, `None` at the start of a sequence. -/
def pastCache : List (MlaToken R dims n) → Option (ResidentCache R dims)
  | [] => none
  | tokens => some (.ofTokens tokens)

@[simp] theorem numTokens_ofTokens (tokens : List (MlaToken R dims n)) :
    (ResidentCache.ofTokens tokens).numTokens = tokens.length := List.length_map _

@[simp] theorem pastLen_pastCache (tokens : List (MlaToken R dims n)) :
    pastLen (pastCache tokens) = tokens.length := by
  cases tokens with
  | nil => rfl
  | cons token tokens => exact numTokens_ofTokens _

/-- Appending resident rows appends tokens. -/
@[simp] theorem appendResidentCache_pastCache (past new : List (MlaToken R dims n)) :
    appendResidentCache (pastCache past) (.ofTokens new) = .ofTokens (past ++ new) := by
  cases past with
  | nil => rfl
  | cons token past =>
    apply ResidentCache.ext
    · exact (List.map_append).symm
    · exact (List.map_append).symm

theorem slice_ofTokens (tokens : List (MlaToken R dims n)) (start stop : Nat) :
    (ResidentCache.ofTokens tokens).slice start stop =
      .ofTokens ((tokens.drop start).take (stop - start)) := by
  apply ResidentCache.ext
  · simp only [ResidentCache.slice, ResidentCache.ofTokens, List.map_take, List.map_drop]
  · simp only [ResidentCache.slice, ResidentCache.ofTokens, List.map_take, List.map_drop]

/-! ## Packed chunks -/

theorem splitFrom_ofTokens (chunks : List (List (MlaToken R dims n)))
    (before : List (MlaToken R dims n)) :
    splitFrom (.ofTokens (before ++ chunks.flatten)) before.length (chunks.map List.length) =
      (chunks.map .ofTokens, before.length + chunks.flatten.length) := by
  induction chunks generalizing before with
  | nil => simp [splitFrom]
  | cons chunk chunks ih =>
    have hrest := ih (before ++ chunk)
    rw [List.append_assoc, List.length_append] at hrest
    simp only [List.map_cons, splitFrom, hrest, slice_ofTokens, List.flatten_cons,
      List.length_append, Nat.add_sub_cancel_left, List.drop_left, List.take_left, Nat.add_assoc]

/-- **Splitting packed chunks by their lengths returns the chunks.** -/
theorem splitByLengths_ofTokens (chunks : List (List (MlaToken R dims n))) :
    splitByLengths (.ofTokens chunks.flatten) (chunks.map List.length) =
      .ok (chunks.map .ofTokens) := by
  have hsplit := splitFrom_ofTokens chunks []
  simp only [List.nil_append, List.length_nil, Nat.zero_add] at hsplit
  simp only [splitByLengths, hsplit, numTokens_ofTokens, ne_eq, not_true_eq_false, if_false]

/-! ## One shot and chunk by chunk -/

section Attention

variable [CommRing R] (attend : Attend R dims)
  (kvUpProj : Matrix (Fin dims.kvLoraRank) (Fin (n * (dims.qkNopeHeadDim + dims.vHeadDim))) R)

/-- The output of `contiguous_mla_attention_forward` over a whole sequence. -/
def oneShot (tokens : List (MlaToken R dims n)) : Rows R (n * dims.vHeadDim) :=
  (contiguousMlaAttentionForward attend (tokens.map MlaToken.query) (.ofTokens tokens) kvUpProj
    none).1

theorem headKv_ofTokens (tokens : List (MlaToken R dims n)) (head : Fin n) :
    headKv kvUpProj (.ofTokens tokens) head =
      tokens.map fun token => denseKv kvUpProj head token.latent token.rope := by
  simp only [headKv, ResidentCache.ofTokens, List.zipWith_map, List.zipWith_self]

/-- A token sees nothing of what follows it. -/
theorem attendRow_append {tokens later : List (MlaToken R dims n)}
    (query : Row R (n * dims.qHeadDim)) {position : Nat} (h : position < tokens.length) :
    attendRow attend kvUpProj (.ofTokens (tokens ++ later)) query position =
      attendRow attend kvUpProj (.ofTokens tokens) query position := by
  simp only [attendRow, headKv_ofTokens, List.map_append]
  refine congrArg ungroup (funext fun head => ?_)
  rw [List.take_append_of_le_length]
  rw [List.length_map]
  exact h

/-- **A chunk behind the tokens before it has the rows of the one-shot output.** -/
theorem contiguousMlaAttentionForward_chunk (past chunk later : List (MlaToken R dims n)) :
    (contiguousMlaAttentionForward attend (chunk.map MlaToken.query) (.ofTokens chunk) kvUpProj
        (pastCache past)).1 =
      ((oneShot attend kvUpProj (past ++ chunk ++ later)).drop past.length).take chunk.length := by
  simp only [oneShot, contiguousMlaAttentionForward_eq, appendResidentCache_pastCache,
    pastLen_pastCache]
  apply List.ext_getElem
  · simp
  · intro j hj hj'
    have hlt : j < chunk.length := by simpa using hj
    have hmem : past.length + j < (past ++ chunk ++ later).length := by
      simp only [List.length_append]
      omega
    have htoken : (past ++ chunk ++ later)[past.length + j] = chunk[j] := by
      simp [hlt]
    simp only [List.getElem_take, List.getElem_drop, List.getElem_map, List.getElem_zipIdx,
      Nat.zero_add, htoken]
    show _ = attendRow attend kvUpProj (.ofTokens (past ++ chunk ++ later)) _ (0 + _)
    rw [Nat.zero_add]
    exact (attendRow_append attend kvUpProj chunk[j].query (by simpa using hlt)).symm

end Attention

/-! ## Batches and calls -/

/-- Sequences that share a component cache, each with the tokens it will ever have. -/
structure MlaBatch (R : Type) (dims : MlaDims) (n batchSize maxSeqLen : Nat) (ι : Type) where
  tokens : ι → List (MlaToken R dims n)
  batchIdx : ι → Fin batchSize
  batchIdx_injective : Function.Injective batchIdx
  fits : ∀ i, (tokens i).length ≤ maxSeqLen

/-- What one call advances: the sequences in prefill with the lengths of their chunks, and the
    sequences that decode a token. -/
structure MlaCall (ι : Type) where
  prefills : List (ι × Nat)
  decodes : List ι

/-- All sequences of a call with the number of their new tokens. -/
def MlaCall.entries (call : MlaCall ι) : List (ι × Nat) :=
  call.prefills ++ call.decodes.map fun i => (i, 1)

/-- The inputs that the projections make of packed tokens. -/
def packedInputs (kvUpProj : Matrix (Fin dims.kvLoraRank)
      (Fin (n * (dims.qkNopeHeadDim + dims.vHeadDim))) R) (tokens : List (MlaToken R dims n)) :
    MlaWrapperInputs R dims n where
  query := joinQuery (splitQueryProjection (tokens.map MlaToken.query)).1
    (splitQueryProjection (tokens.map MlaToken.query)).2
  kvUpProj := kvUpProj
  newResidentCache := .ofTokens tokens
  length_eq := by
    rw [joinQuery_splitQueryProjection, List.length_map, List.length_map, numTokens_ofTokens]

namespace MlaBatch

variable (batch : MlaBatch R dims n batchSize maxSeqLen ι) (progress : ι → Nat)

/-- The tokens of a sequence that have been processed. -/
def past (i : ι) : List (MlaToken R dims n) := (batch.tokens i).take (progress i)

/-- The new tokens of an entry of a call. -/
def chunk (e : ι × Nat) : List (MlaToken R dims n) :=
  ((batch.tokens e.1).drop (progress e.1)).take e.2

/-- The metadata that `begin_forward` and `set_batch_idx` set for a call. -/
def metadata (call : MlaCall ι) : MlaMetadata where
  isMetadataInitialized := true
  isProfilingIteration := false
  prefillQueryLens := call.prefills.map fun e => e.2
  prefillCacheLens := call.prefills.map fun e => progress e.1
  decodeCacheLens := if call.decodes = [] then none else some (call.decodes.map progress)
  batchIndex := some (call.entries.map fun e => batch.batchIdx e.1)
  batchIndexGen := some (call.decodes.map fun i => batch.batchIdx i)

/-- A call advances different sequences, each by at least one of the tokens it still has. -/
structure Admissible (call : MlaCall ι) : Prop where
  nodup : (call.entries.map fun e => e.1).Nodup
  pos : ∀ e ∈ call.entries, 0 < e.2
  within : ∀ e ∈ call.entries, progress e.1 + e.2 ≤ (batch.tokens e.1).length

/-- The cache has, for every sequence, exactly the rows of its processed tokens. -/
def Holds (kvCache : ComponentMlaKvCache R dims batchSize maxSeqLen) : Prop :=
  ∀ i, kvCache.rows (batch.batchIdx i) (progress i) = .ofTokens (batch.past progress i)

variable {batch progress}

theorem length_chunk {e : ι × Nat} (h : progress e.1 + e.2 ≤ (batch.tokens e.1).length) :
    (batch.chunk progress e).length = e.2 := by
  simp only [chunk, List.length_take, List.length_drop]
  omega

/-- The new rows of an entry fit into the cache behind the processed tokens. -/
theorem chunk_fits {e : ι × Nat} (h : progress e.1 + e.2 ≤ (batch.tokens e.1).length) :
    progress e.1 + (ResidentCache.ofTokens (batch.chunk progress e)).numTokens ≤ maxSeqLen := by
  rw [numTokens_ofTokens, length_chunk h]
  exact h.trans (batch.fits e.1)

theorem past_append_chunk (e : ι × Nat) :
    batch.past progress e.1 ++ batch.chunk progress e =
      (batch.tokens e.1).take (progress e.1 + e.2) := by
  rw [past, chunk, List.take_add]

/-! ## The entries of a call -/

/-- What the loop of `forward_mla` gets for an entry. -/
def entry (batch : MlaBatch R dims n batchSize maxSeqLen ι) (progress : ι → Nat) (e : ι × Nat) :
    MlaEntry R dims where
  queryLen := e.2
  pastLen := progress e.1
  batchIdx := some (batch.batchIdx e.1)
  pastCache := Mla.pastCache (batch.past progress e.1)
  currentCache := .ofTokens (batch.chunk progress e)

/-- Reading the cache returns the rows of the processed tokens. -/
theorem readComponentMlaKvCache_eq {kvCache : ComponentMlaKvCache R dims batchSize maxSeqLen}
    (h : batch.Holds progress kvCache) {i : ι} (hle : progress i ≤ (batch.tokens i).length) :
    readComponentMlaKvCache kvCache (batch.batchIdx i) (progress i) =
      .ok (Mla.pastCache (batch.past progress i)) := by
  rcases Nat.eq_zero_or_pos (progress i) with hzero | hpos
  · rw [readComponentMlaKvCache, if_pos hzero, past, hzero, List.take_zero]
    rfl
  · rw [readComponentMlaKvCache, if_neg hpos.ne', dif_pos (batch.batchIdx i).isLt, h i]
    have hlength : (batch.past progress i).length = progress i := by
      rw [past, List.length_take, Nat.min_eq_left hle]
    cases hpast : batch.past progress i with
    | nil =>
      rw [hpast, List.length_nil] at hlength
      omega
    | cons token tokens => rfl

theorem getD_decodeCacheLens (call : MlaCall ι) :
    (batch.metadata progress call).decodeCacheLens.getD [] = call.decodes.map progress := by
  show (if call.decodes = [] then none else some (call.decodes.map progress)).getD [] = _
  split_ifs with hnil
  · rw [hnil]
    rfl
  · rfl

variable [CommRing R] {flash : FlashAttention R dims.qHeadDim}
  {kvUpProj : Matrix (Fin dims.kvLoraRank) (Fin (n * (dims.qkNopeHeadDim + dims.vHeadDim))) R}
  {kvCache : ComponentMlaKvCache R dims batchSize maxSeqLen} {call : MlaCall ι}

omit [CommRing R] in
/-- **The five lists of the loop** line up: each entry gets its own lengths, batch index, past rows
    and new rows. -/
theorem forwardMlaEntries_eq (hholds : batch.Holds progress kvCache)
    (hcall : batch.Admissible progress call) :
    forwardMlaEntries (batch.metadata progress call)
        (packedInputs kvUpProj (call.entries.flatMap (batch.chunk progress)))
        (.component kvCache) =
      .ok (call.entries.map (batch.entry progress)) := by
  have hqueryLens : call.prefills.map (fun e => e.2) ++
      (call.decodes.map progress).map (fun _ => 1) = call.entries.map fun e => e.2 := by
    simp [MlaCall.entries]
  have hpastLens : call.prefills.map (fun e => progress e.1) ++ call.decodes.map progress =
      call.entries.map fun e => progress e.1 := by
    simp [MlaCall.entries]
  have hindices : (call.entries.map fun e => (batch.batchIdx e.1 : Nat)).take
      (call.prefills.map fun e => e.2).length ++
        call.decodes.map (fun i => (batch.batchIdx i : Nat)) =
      call.entries.map fun e => (batch.batchIdx e.1 : Nat) := by
    simp [MlaCall.entries]
  have hlengths : call.entries.map (fun e => e.2) =
      (call.entries.map (batch.chunk progress)).map List.length := by
    rw [List.map_map]
    exact List.map_congr_left fun e he => (length_chunk (hcall.within e he)).symm
  have hsplit := splitByLengths_ofTokens (call.entries.map (batch.chunk progress))
  rw [← hlengths, ← List.flatMap_def, List.map_map] at hsplit
  have hread : ((call.entries.map fun e => (batch.batchIdx e.1 : Nat)).zip
      (call.entries.map fun e => progress e.1)).mapM
        (fun p => readComponentMlaKvCache kvCache p.1 p.2) =
      .ok (call.entries.map fun e => Mla.pastCache (batch.past progress e.1)) := by
    rw [List.zip_map', List.mapM_map]
    refine Eq.trans (mapM_congr_of_mem fun e he => ?_) List.mapM_pure
    exact readComponentMlaKvCache_eq hholds ((Nat.le_add_right _ _).trans (hcall.within e he))
  simp only [forwardMlaEntries, getD_decodeCacheLens]
  simp only [metadata, packedInputs, Option.getD_some, hqueryLens, hpastLens, hindices, hsplit]
  show (_ >>= _ : Except PyError _) = _
  rw [hread]
  show Except.ok _ = Except.ok _
  simp only [List.zip_map', List.map_map]
  rfl

/-! ## The loop of a call -/

/-- The rows that the one-shot output of a sequence has for the tokens of an entry. -/
def oneShotRows (batch : MlaBatch R dims n batchSize maxSeqLen ι) (progress : ι → Nat)
    (flash : FlashAttention R dims.qHeadDim)
    (kvUpProj : Matrix (Fin dims.kvLoraRank)
      (Fin (n * (dims.qkNopeHeadDim + dims.vHeadDim))) R) (e : ι × Nat) :
    Rows R (n * dims.vHeadDim) :=
  ((oneShot (flash.attend dims.vHeadDim) kvUpProj (batch.tokens e.1)).drop (progress e.1)).take e.2

/-- The cache after the write of an entry. -/
def putEntry (batch : MlaBatch R dims n batchSize maxSeqLen ι) (progress : ι → Nat)
    (kvCache : ComponentMlaKvCache R dims batchSize maxSeqLen) (e : ι × Nat) :
    ComponentMlaKvCache R dims batchSize maxSeqLen :=
  kvCache.put (batch.batchIdx e.1) (progress e.1) (.ofTokens (batch.chunk progress e))

/-- FlashAttention over the past and the new tokens is contiguous attention with the past rows as
    cache: the mask that is aligned to the bottom right starts behind the past. -/
theorem flashAttnFunc_ofTokens (past chunk : List (MlaToken R dims n)) :
    (flashAttnFunc flash (chunk.map fun token => group token.query)
        (reconstructDenseKv (.ofTokens (past ++ chunk)) kvUpProj).1
        (reconstructDenseKv (.ofTokens (past ++ chunk)) kvUpProj).2).map ungroup =
      (contiguousMlaAttentionForward (flash.attend dims.vHeadDim) (chunk.map MlaToken.query)
        (.ofTokens chunk) kvUpProj (Mla.pastCache past)).1 := by
  have hkey : (reconstructDenseKv (.ofTokens (past ++ chunk)) kvUpProj).1.length =
      past.length + chunk.length := by
    simp [reconstructDenseKv, ResidentCache.ofTokens]
  simp only [contiguousMlaAttentionForward, joinQuery_splitQueryProjection, flashAttnFunc, hkey,
    appendResidentCache_pastCache, pastLen_pastCache, List.length_map, Nat.add_sub_cancel,
    List.map_map]
  rfl

theorem flashAttnFunc_chunk {e : ι × Nat}
    (h : progress e.1 + e.2 ≤ (batch.tokens e.1).length) :
    (flashAttnFunc flash ((batch.chunk progress e).map fun token => group token.query)
        (reconstructDenseKv (.ofTokens (batch.past progress e.1 ++ batch.chunk progress e))
          kvUpProj).1
        (reconstructDenseKv (.ofTokens (batch.past progress e.1 ++ batch.chunk progress e))
          kvUpProj).2).map ungroup =
      batch.oneShotRows progress flash kvUpProj e := by
  have hpast : (batch.past progress e.1).length = progress e.1 := by
    rw [past, List.length_take]
    omega
  have hwhole : batch.past progress e.1 ++ batch.chunk progress e ++
      (batch.tokens e.1).drop (progress e.1 + e.2) = batch.tokens e.1 := by
    rw [past_append_chunk, List.take_append_drop]
  rw [flashAttnFunc_ofTokens, contiguousMlaAttentionForward_chunk _ _ _ _
    ((batch.tokens e.1).drop (progress e.1 + e.2)), hwhole, hpast, length_chunk h]
  rfl

/-- **One iteration** writes the new rows of its sequence and returns its rows of the one-shot
    output. -/
theorem forwardMlaEntry_eq (hv : dims.vHeadDim ≤ dims.qHeadDim) {e : ι × Nat} (hpos : 0 < e.2)
    (hwithin : progress e.1 + e.2 ≤ (batch.tokens e.1).length)
    (before after : List (MlaToken R dims n)) (output : Rows R (n * dims.vHeadDim)) :
    forwardMlaEntry flash (packedInputs kvUpProj (before ++ (batch.chunk progress e ++ after)))
        ⟨.component kvCache, output, before.length⟩ (batch.entry progress e) =
      .ok ⟨.component (batch.putEntry progress kvCache e),
        output ++ batch.oneShotRows progress flash kvUpProj e, before.length + e.2⟩ := by
  have hlength := length_chunk hwithin
  have hwrite : writeEntry (.component kvCache) (batch.entry progress e) =
      .ok (.component (batch.putEntry progress kvCache e)) := by
    simp only [writeEntry, entry, writeComponentMlaKvCache_eq_ok (chunk_fits hwithin)]
    rfl
  have hquery : ((packedInputs kvUpProj
      (before ++ (batch.chunk progress e ++ after))).query.drop before.length).take e.2 =
        (batch.chunk progress e).map fun token => group token.query := by
    simp only [packedInputs, joinQuery_splitQueryProjection, List.map_map, ← List.map_drop,
      ← List.map_take]
    rw [List.drop_left, ← hlength, List.take_left]
    rfl
  have hpad : ∀ value : List (Fin n → Row R dims.vHeadDim),
      padValueHeadsForFlashAttention value dims.qHeadDim =
        .ok (value.map (padHeads dims.qHeadDim)) :=
    fun value => if_neg (Nat.not_lt.mpr hv)
  have hreshape : raiseIf (e.2 == 0) (PyError.runtimeError "cannot reshape tensor of 0 elements") =
      .ok () := by
    rw [raiseIf_eq_ok, beq_eq_false_iff_ne]
    exact hpos.ne'
  refine seq_eq_ok.mpr ⟨_, hwrite, ?_⟩
  simp only [entry, appendResidentCache_pastCache, hquery]
  refine seq_eq_ok.mpr ⟨_, hpad _, ?_⟩
  refine seq_eq_ok.mpr ⟨_, trim_flashAttnFunc_pad flash hv _ _ _, ?_⟩
  refine seq_eq_ok.mpr ⟨(), hreshape, ?_⟩
  exact congrArg (fun rows => Except.ok (MlaLoopState.mk _ (output ++ rows) _))
    (flashAttnFunc_chunk hwithin)

/-- **The loop of a call**, from any point of it on. -/
theorem foldlM_forwardMlaEntry (hv : dims.vHeadDim ≤ dims.qHeadDim) (es : List (ι × Nat))
    (hpos : ∀ e ∈ es, 0 < e.2)
    (hwithin : ∀ e ∈ es, progress e.1 + e.2 ≤ (batch.tokens e.1).length)
    (before : List (MlaToken R dims n)) (kvCache : ComponentMlaKvCache R dims batchSize maxSeqLen)
    (output : Rows R (n * dims.vHeadDim)) :
    (es.map (batch.entry progress)).foldlM
        (forwardMlaEntry flash
          (packedInputs kvUpProj (before ++ es.flatMap (batch.chunk progress))))
        ⟨.component kvCache, output, before.length⟩ =
      .ok ⟨.component (es.foldl (batch.putEntry progress) kvCache),
        output ++ es.flatMap (batch.oneShotRows progress flash kvUpProj),
        before.length + (es.flatMap (batch.chunk progress)).length⟩ := by
  induction es generalizing before kvCache output with
  | nil =>
    simp only [List.flatMap_nil, List.append_nil]
    rfl
  | cons e es ih =>
    have hlength := length_chunk (hwithin e List.mem_cons_self)
    have hrest := ih (fun e' he' => hpos e' (List.mem_cons_of_mem e he'))
      (fun e' he' => hwithin e' (List.mem_cons_of_mem e he')) (before ++ batch.chunk progress e)
      (batch.putEntry progress kvCache e) (output ++ batch.oneShotRows progress flash kvUpProj e)
    simp only [List.append_assoc, List.length_append, hlength] at hrest
    simp only [List.map_cons, List.flatMap_cons, List.foldl_cons, List.length_append, hlength]
    refine seq_eq_ok.mpr ⟨_, forwardMlaEntry_eq hv (hpos e List.mem_cons_self)
      (hwithin e List.mem_cons_self) before _ output, ?_⟩
    rw [hrest, Nat.add_assoc]

theorem length_oneShotRows {e : ι × Nat}
    (h : progress e.1 + e.2 ≤ (batch.tokens e.1).length) :
    (batch.oneShotRows progress flash kvUpProj e).length = e.2 := by
  simp only [oneShotRows, oneShot, contiguousMlaAttentionForward_eq, List.length_take,
    List.length_drop, List.length_map, List.length_zipIdx]
  omega

/-- **A call of `forward_mla`** returns the rows of the one-shot outputs and writes the new rows of
    its sequences. -/
theorem forwardMla_eq (hv : dims.vHeadDim ≤ dims.qHeadDim) (hholds : batch.Holds progress kvCache)
    (hcall : batch.Admissible progress call) :
    forwardMla flash (batch.metadata progress call)
        (packedInputs kvUpProj (call.entries.flatMap (batch.chunk progress)))
        (.component kvCache) =
      .ok ((call.entries.flatMap (batch.oneShotRows progress flash kvUpProj)).map some,
        .component (call.entries.foldl (batch.putEntry progress) kvCache)) := by
  have hlength : (packedInputs kvUpProj
      (call.entries.flatMap (batch.chunk progress))).query.length =
      (call.entries.flatMap (batch.oneShotRows progress flash kvUpProj)).length := by
    rw [MlaWrapperInputs.length_eq]
    show (ResidentCache.ofTokens _).numTokens = _
    rw [numTokens_ofTokens, List.length_flatMap, List.length_flatMap]
    refine congrArg List.sum (List.map_congr_left fun e he => ?_)
    rw [length_chunk (hcall.within e he), length_oneShotRows (hcall.within e he)]
  refine seq_eq_ok.mpr ⟨(), rfl, ?_⟩
  refine seq_eq_ok.mpr ⟨_, forwardMlaEntries_eq hholds hcall, ?_⟩
  refine seq_eq_ok.mpr ⟨_, foldlM_forwardMlaEntry hv call.entries hcall.pos hcall.within []
    kvCache [], ?_⟩
  simp only [List.nil_append, hlength, Nat.sub_self, List.replicate_zero, List.append_nil]

/-! ## The cache after a call -/

omit [CommRing R] in
/-- The rows of a batch index that is not among the entries stay as they are. -/
theorem foldl_putEntry_frame (progress : ι → Nat) {b : Fin batchSize} (es : List (ι × Nat))
    (hb : ∀ e ∈ es, batch.batchIdx e.1 ≠ b)
    (kvCache : ComponentMlaKvCache R dims batchSize maxSeqLen) :
    (es.foldl (batch.putEntry progress) kvCache).kvLatent b = kvCache.kvLatent b ∧
      (es.foldl (batch.putEntry progress) kvCache).kRope b = kvCache.kRope b := by
  induction es generalizing kvCache with
  | nil => exact ⟨rfl, rfl⟩
  | cons e es ih =>
    have hne := (hb e List.mem_cons_self).symm
    obtain ⟨hlatent, hrope⟩ := ih (fun e' he' => hb e' (List.mem_cons_of_mem e he'))
      (batch.putEntry progress kvCache e)
    rw [List.foldl_cons, hlatent, hrope]
    exact ⟨Function.update_of_ne hne _ _, Function.update_of_ne hne _ _⟩

omit [CommRing R] in
theorem foldl_putEntry_rows {b : Fin batchSize} (es : List (ι × Nat))
    (hb : ∀ e ∈ es, batch.batchIdx e.1 ≠ b)
    (kvCache : ComponentMlaKvCache R dims batchSize maxSeqLen) (seqLen : Nat) :
    (es.foldl (batch.putEntry progress) kvCache).rows b seqLen = kvCache.rows b seqLen := by
  obtain ⟨hlatent, hrope⟩ := foldl_putEntry_frame progress es hb kvCache
  simp only [ComponentMlaKvCache.rows, hlatent, hrope]

omit [CommRing R] in
/-- The write of an entry appends its new rows. -/
theorem rows_putEntry {e : ι × Nat} (hwithin : progress e.1 + e.2 ≤ (batch.tokens e.1).length)
    (hrows : kvCache.rows (batch.batchIdx e.1) (progress e.1) =
      .ofTokens (batch.past progress e.1)) :
    (batch.putEntry progress kvCache e).rows (batch.batchIdx e.1) (progress e.1 + e.2) =
      .ofTokens ((batch.tokens e.1).take (progress e.1 + e.2)) := by
  have hput := kvCache.rows_put (batch.batchIdx e.1) (chunk_fits hwithin)
  rw [numTokens_ofTokens, length_chunk hwithin, hrows] at hput
  rw [putEntry, hput, ← past_append_chunk]
  apply ResidentCache.ext
  · exact (List.map_append).symm
  · exact (List.map_append).symm

section Advance

variable [DecidableEq ι]

/-- The progress of every sequence after a call. -/
def advance (progress : ι → Nat) (call : MlaCall ι) : ι → Nat :=
  fun i => progress i + (call.entries.lookup i).getD 0

omit [CommRing R] in
/-- **After a call the cache holds the tokens so far.** -/
theorem Holds.advance (hholds : batch.Holds progress kvCache)
    (hcall : batch.Admissible progress call) :
    batch.Holds (advance progress call)
      (call.entries.foldl (batch.putEntry progress) kvCache) := by
  intro i
  have hother : ∀ e : ι × Nat, e.1 ≠ i → batch.batchIdx e.1 ≠ batch.batchIdx i :=
    fun e hne heq => hne (batch.batchIdx_injective heq)
  rw [past, MlaBatch.advance]
  cases hlookup : call.entries.lookup i with
  | none =>
    -- the sequence is not in the call
    have hnot := List.lookup_eq_none_iff.mp hlookup
    rw [foldl_putEntry_rows _ fun e he => hother e fun heq => by simpa [heq] using hnot e he]
    exact hholds i
  | some len =>
    -- it is there once: the entries before and after it leave its rows alone
    obtain ⟨before, after, hentries, hbefore⟩ := List.lookup_eq_some_iff.mp hlookup
    have hmem : (i, len) ∈ call.entries := by simp [hentries]
    have hafter : ∀ e ∈ after, e.1 ≠ i := by
      have hnodup := hcall.nodup
      rw [hentries, List.map_append, List.map_cons] at hnodup
      intro e he heq
      exact (List.nodup_cons.mp (List.nodup_append.mp hnodup).2.1).1
        (List.mem_map.mpr ⟨e, he, heq⟩)
    rw [hentries, List.foldl_append, List.foldl_cons,
      foldl_putEntry_rows after fun e he => hother e (hafter e he)]
    refine rows_putEntry (hcall.within _ hmem) ?_
    rw [foldl_putEntry_rows before fun e he => hother e fun heq => by
      simpa [heq] using hbefore e he]
    exact hholds i

/-! ## Runs -/

/-- The runtime cache and how far every sequence has got. -/
structure State (R : Type) (dims : MlaDims) (batchSize maxSeqLen : Nat) (ι : Type) where
  kvCache : RuntimeKvCache R dims batchSize maxSeqLen
  progress : ι → Nat

/-- One call of `forward_mla` on the next tokens of the sequences it advances. -/
def forwardCall (batch : MlaBatch R dims n batchSize maxSeqLen ι)
    (flash : FlashAttention R dims.qHeadDim)
    (kvUpProj : Matrix (Fin dims.kvLoraRank)
      (Fin (n * (dims.qkNopeHeadDim + dims.vHeadDim))) R) (call : MlaCall ι)
    (s : State R dims batchSize maxSeqLen ι) :
    Except PyError
      (List (Option (Row R (n * dims.vHeadDim))) × RuntimeKvCache R dims batchSize maxSeqLen) :=
  forwardMla flash (batch.metadata s.progress call)
    (packedInputs kvUpProj (call.entries.flatMap (batch.chunk s.progress))) s.kvCache

/-- The state after a call. -/
def exec (batch : MlaBatch R dims n batchSize maxSeqLen ι)
    (flash : FlashAttention R dims.qHeadDim)
    (kvUpProj : Matrix (Fin dims.kvLoraRank)
      (Fin (n * (dims.qkNopeHeadDim + dims.vHeadDim))) R) (call : MlaCall ι)
    (s : State R dims batchSize maxSeqLen ι) :
    Except PyError (State R dims batchSize maxSeqLen ι) :=
  (batch.forwardCall flash kvUpProj call s).map fun result =>
    ⟨result.2, MlaBatch.advance s.progress call⟩

/-- A component cache with any contents, and no token processed. -/
def Initial (s : State R dims batchSize maxSeqLen ι) : Prop :=
  (∃ kvCache, s.kvCache = .component kvCache) ∧ ∀ i, s.progress i = 0

/-- The states that calls reach, each advancing any sequences by any of their next tokens. -/
abbrev Reached (batch : MlaBatch R dims n batchSize maxSeqLen ι)
    (flash : FlashAttention R dims.qHeadDim)
    (kvUpProj : Matrix (Fin dims.kvLoraRank)
      (Fin (n * (dims.qkNopeHeadDim + dims.vHeadDim))) R) :
    State R dims batchSize maxSeqLen ι → Prop :=
  Reaches (batch.exec flash kvUpProj) Initial fun s call => batch.Admissible s.progress call

/-- In every state reached, the cache holds the tokens so far. -/
theorem Reached.holds (hv : dims.vHeadDim ≤ dims.qHeadDim) {s : State R dims batchSize maxSeqLen ι}
    (hs : batch.Reached flash kvUpProj s) :
    ∃ kvCache, s.kvCache = .component kvCache ∧ batch.Holds s.progress kvCache := by
  refine hs.invariant (fun s => ∃ kvCache, s.kvCache = .component kvCache ∧
    batch.Holds s.progress kvCache) ?_ ?_
  · rintro s ⟨⟨kvCache, hcache⟩, hzero⟩
    refine ⟨kvCache, hcache, fun i => ?_⟩
    rw [past, hzero i]
    rfl
  · rintro s call s' ⟨kvCache, hcache, hholds⟩ hcall hexec
    obtain ⟨result, hforward, rfl⟩ := map_eq_ok.mp hexec
    rw [forwardCall, hcache, forwardMla_eq hv hholds hcall] at hforward
    obtain rfl := Except.ok.inj hforward
    exact ⟨_, rfl, hholds.advance hcall⟩

/-- **Chunk invariance.**  However sequences with distinct batch indices have been advanced by
    prefill chunks and decodes, the cache holds exactly the rows of their tokens so far, and every
    further call returns for each of its tokens the row of the one-shot output, adds the rows of
    these tokens and leaves the other batch indices alone. -/
theorem forwardMla_chunk_invariant (hv : dims.vHeadDim ≤ dims.qHeadDim)
    {s : State R dims batchSize maxSeqLen ι} (hs : batch.Reached flash kvUpProj s) :
    ∃ kvCache, s.kvCache = .component kvCache ∧ batch.Holds s.progress kvCache ∧
      ∀ call, batch.Admissible s.progress call →
        ∃ kvCache', batch.forwardCall flash kvUpProj call s =
            .ok ((call.entries.flatMap (batch.oneShotRows s.progress flash kvUpProj)).map some,
              .component kvCache') ∧
          batch.Holds (MlaBatch.advance s.progress call) kvCache' ∧
          ∀ b, (∀ e ∈ call.entries, batch.batchIdx e.1 ≠ b) →
            kvCache'.kvLatent b = kvCache.kvLatent b ∧ kvCache'.kRope b = kvCache.kRope b := by
  obtain ⟨kvCache, hcache, hholds⟩ := Reached.holds hv hs
  refine ⟨kvCache, hcache, hholds, fun call hcall => ?_⟩
  refine ⟨call.entries.foldl (batch.putEntry s.progress) kvCache, ?_, hholds.advance hcall, ?_⟩
  · rw [forwardCall, hcache]
    exact forwardMla_eq hv hholds hcall
  · intro b hb
    exact foldl_putEntry_frame s.progress call.entries hb kvCache

end Advance

end MlaBatch

/-! ## Examples -/

/-- Attention that adds up the values. -/
def sumAttention (q : Nat) : FlashAttention ℤ q where
  attend d _ kvs := (kvs.map Prod.snd).sum
  attend_comp f query kvs := by
    induction kvs with
    | nil => rfl
    | cons kv kvs ih =>
      simp only [List.map_cons, List.sum_cons] at ih ⊢
      rw [ih]
      rfl

/-- A token with one number for all of its rows. -/
def plainToken {dims : MlaDims} {n : Nat} (x : ℤ) : MlaToken ℤ dims n :=
  ⟨fun _ => x, fun _ => x, fun _ => x⟩

/-- One entry everywhere. -/
def narrowDims : MlaDims := ⟨1, 1, 1, 1, 1⟩

/-- Values of two entries for queries of one. -/
def wideDims : MlaDims := ⟨1, 1, 1, 0, 2⟩

/-- Two sequences of three tokens and one token. -/
def twoSequences : MlaBatch ℤ narrowDims 1 2 3 (Fin 2) where
  tokens := ![[plainToken 1, plainToken 2, plainToken 4], [plainToken 5]]
  batchIdx := Fin.rev
  batchIdx_injective := Fin.rev_injective
  fits := by decide

/-- Prefill of two tokens of one sequence; then the prefill of the other together with a decode
    of the first. -/
theorem twoSequences_chunk_invariant :
    ∃ s, twoSequences.Reached (sumAttention _) (fun _ _ => 1) s ∧ s.progress = ![2, 0] ∧
      ∃ kvCache, twoSequences.forwardCall (sumAttention _) (fun _ _ => 1) ⟨[(1, 1)], [0]⟩ s =
        .ok ([some 5, some 7], .component kvCache) := by
  have hinit : twoSequences.Reached (sumAttention _) (fun _ _ => 1)
      ⟨.component ⟨fun _ _ => 0, fun _ _ => 0⟩, ![0, 0]⟩ := .init ⟨⟨_, rfl⟩, by decide⟩
  have hfirst : twoSequences.Admissible ![0, 0] ⟨[(0, 2)], []⟩ :=
    ⟨by decide, by decide, by decide⟩
  obtain ⟨_, _, _, hcalls⟩ := MlaBatch.forwardMla_chunk_invariant (by decide) hinit
  obtain ⟨kvCache, hforward, -⟩ := hcalls _ hfirst
  have hprogress : MlaBatch.advance ![0, 0] ⟨[((0 : Fin 2), 2)], []⟩ = ![2, 0] := by decide
  have hsecond : twoSequences.Reached (sumAttention _) (fun _ _ => 1)
      ⟨.component kvCache, ![2, 0]⟩ :=
    .next hinit hfirst (map_eq_ok.mpr ⟨_, hforward, congrArg (MlaBatch.State.mk _) hprogress⟩)
  have hboth : twoSequences.Admissible ![2, 0] ⟨[(1, 1)], [0]⟩ :=
    ⟨by decide, by decide, by decide⟩
  obtain ⟨_, _, _, hcalls'⟩ := MlaBatch.forwardMla_chunk_invariant (by decide) hsecond
  obtain ⟨kvCache', hforward', -⟩ := hcalls' _ hboth
  exact ⟨_, hsecond, rfl, kvCache', hforward'⟩

/-- The metadata for the prefill of two tokens. -/
def longPrefill : MlaMetadata where
  isMetadataInitialized := true
  isProfilingIteration := false
  prefillQueryLens := [2]
  prefillCacheLens := [0]
  decodeCacheLens := none
  batchIndex := some [0]
  batchIndexGen := some []

/-- One token whose values are wider than its queries. -/
def wideSequence : MlaBatch ℤ wideDims 1 1 1 Unit where
  tokens _ := [plainToken 1]
  batchIdx _ := 0
  batchIdx_injective := fun _ _ _ => rfl
  fits _ := Nat.le_refl 1

/-- Where values are wider than queries `forward_mla` raises an error, and likewise where a prompt
    has more tokens than the cache has rows; contiguous attention returns a row for every token. -/
theorem forwardMla_raises :
    (wideSequence.Admissible (fun _ => 0) ⟨[((), 1)], []⟩ ∧
      wideSequence.forwardCall (sumAttention _) (fun _ _ => 1) ⟨[((), 1)], []⟩
          ⟨.component ⟨fun _ _ => 0, fun _ _ => 0⟩, fun _ => 0⟩ =
        .error (.valueError "value head_dim must not exceed flash-attention target head_dim") ∧
      oneShot ((sumAttention wideDims.qHeadDim).attend 2) (fun _ _ => 1) (wideSequence.tokens ()) =
        [1]) ∧
    forwardMla (sumAttention narrowDims.qHeadDim) longPrefill
        (packedInputs (n := 1) (fun _ _ => 1) [plainToken 1, plainToken 2])
        (.component (⟨fun _ _ => 0, fun _ _ => 0⟩ : ComponentMlaKvCache ℤ narrowDims 1 1)) =
      .error (.runtimeError "The size of the tensors must match at non-singleton dimension 0") ∧
    oneShot (n := 1) ((sumAttention narrowDims.qHeadDim).attend 1) (fun _ _ => 1)
        [plainToken 1, plainToken 2] = [1, 3] := by
  refine ⟨⟨⟨by decide, by decide, by decide⟩, by rfl, ?_⟩, by rfl, ?_⟩
  · decide +kernel
  · decide +kernel

end VAttention.Mla
