import VAttention.Core.LogicalBlocks
import VAttention.Lib.Runs
import VAttention.Manager.Views

/-!
# Logical blocks mirror the tokens

A sequence appends every token twice: to `output_token_ids` and to its logical blocks.
`reset_for_recompute` moves the generated tokens into the prompt and leaves the blocks alone.  In
every run the blocks hold the prompt followed by the output, and the objects hold what the lists of
`Sequence` say, so that counting these lists is counting the objects.
-/

namespace VAttention.Manager

open VAttention.Core VAttention.Lib

/-- A sequence together with its logical blocks as objects.  The lists of `Sequence` stay beside
    them. -/
structure BlockedSequence where
  seq : Sequence
  logicalTokenBlocks : List LogicalTokenBlock

/-- How a call can fail to return. -/
inductive CallError where
  | raised (exc : PyError)
  /-- A loop does not end. -/
  | diverges
  deriving DecidableEq

namespace BlockedSequence

variable (blankTokenId : TokenId)

/-- `_append_tokens_to_blocks`: a turn that stores nothing is the first of endlessly many. -/
def appendTokensToBlocks (tokenIds : List TokenId) (blockSize : Nat)
    (blocks : List LogicalTokenBlock) : Except CallError (List LogicalTokenBlock) :=
  match appendLoop blankTokenId blockSize (tokenIds.length + 1) tokenIds blocks with
  | .ok (some blocks') => .ok blocks'
  | .ok none => .error .diverges
  | .error exc => .error (.raised exc)

/-- `Sequence.__init__`. -/
def new (seqId : SeqId) (prompt : Text) (promptTokenIds : List TokenId) (blockSize : Nat)
    (eosTokenId : Option TokenId) (arrivalTime : Time) (samplingParams : SamplingParams) :
    Except CallError BlockedSequence := do
  let blocks ← appendTokensToBlocks blankTokenId promptTokenIds blockSize []
  pure ⟨.new seqId prompt promptTokenIds blockSize eosTokenId arrivalTime samplingParams, blocks⟩

/-- A method that leaves the blocks alone. -/
def withSeq (s : BlockedSequence) (result : Except PyError Sequence) :
    Except CallError BlockedSequence :=
  match result with
  | .ok seq => .ok { s with seq }
  | .error exc => .error (.raised exc)

/-- `append_token_id`. -/
def appendTokenId (tokenId : TokenId) (s : BlockedSequence) : Except CallError BlockedSequence := do
  let s' ← s.withSeq (s.seq.appendTokenId tokenId)
  let blocks ← appendTokensToBlocks blankTokenId [tokenId] s.seq.blockSize s.logicalTokenBlocks
  pure { s' with logicalTokenBlocks := blocks }

/-- The methods that change the tokens of a sequence or what their assertions ask for; `check_stop`
    sets the text and the status only. -/
inductive Call where
  | appendTokenId (tokenId : TokenId)
  | resetForRecompute
  | setStatus (status : SequenceStatus)
  | updatePromptTokensProcessed (numTokens : Int)

/-- Carry out a call. -/
def exec (call : Call) (s : BlockedSequence) : Except CallError BlockedSequence :=
  match call with
  | .appendTokenId tokenId => s.appendTokenId blankTokenId tokenId
  | .resetForRecompute => s.withSeq s.seq.resetForRecompute
  | .setStatus status => s.withSeq (s.seq.setStatus status)
  | .updatePromptTokensProcessed numTokens =>
    s.withSeq (s.seq.updatePromptTokensProcessed numTokens)

/-- The blocks hold exactly the tokens, in order, each but the last is full, and there are as many
    as the length needs. -/
structure MirrorsTokens (s : BlockedSequence) : Prop where
  tokens : s.logicalTokenBlocks.flatMap LogicalTokenBlock.getTokenIds =
    s.seq.promptTokenIds ++ s.seq.outputTokenIds
  full : ∀ b ∈ s.logicalTokenBlocks.dropLast, b.isFull = true
  count : s.logicalTokenBlocks.length = ceilDiv s.seq.getLen s.seq.blockSize

/-- Invariant of a run: the objects hold the lists, and the lists the tokens. -/
structure Inv (s : BlockedSequence) : Prop where
  size : ∀ b ∈ s.logicalTokenBlocks, b.blockSize = s.seq.blockSize
  lists : contents s.logicalTokenBlocks = s.seq.logicalTokenBlocks
  filled : Filled s.seq.blockSize s.seq.logicalTokenBlocks
    (s.seq.promptTokenIds ++ s.seq.outputTokenIds)

variable {blankTokenId} {s s' : BlockedSequence}

theorem Inv.mirrorsTokens (hblock : 0 < s.seq.blockSize) (h : s.Inv) : s.MirrorsTokens where
  tokens := by
    rw [← h.filled.flatten_eq, ← h.lists, contents, List.flatten_eq_flatMap, List.flatMap_map]
    rfl
  full b hb := by
    have hsize := h.size b (List.dropLast_subset _ hb)
    have hmem : b.getTokenIds ∈ s.seq.logicalTokenBlocks.dropLast := by
      rw [← h.lists, contents, ← List.map_dropLast]
      exact List.mem_map_of_mem hb
    rw [LogicalTokenBlock.isFull_iff, hsize]
    exact h.filled.full _ hmem
  count := by
    have hlength := (h.filled.packed hblock).length
    rw [List.length_append, Nat.add_comm] at hlength
    rw [← Sequence.getLen, ← h.lists, contents, List.length_map] at hlength
    exact hlength

/-- The loop of `_append_tokens_to_blocks` ends in every such state. -/
theorem Inv.appendLoop_eq_ok (hblock : 0 < s.seq.blockSize) (h : s.Inv)
    (blankTokenId : TokenId) (tokenIds : List TokenId) :
    ∃ blocks, appendLoop blankTokenId s.seq.blockSize (tokenIds.length + 1) tokenIds
        s.logicalTokenBlocks = .ok (some blocks) ∧
      contents blocks =
        Core.appendTokensToBlocks s.seq.blockSize s.seq.logicalTokenBlocks tokenIds ∧
      ∀ b ∈ blocks, b.blockSize = s.seq.blockSize := by
  have hfilled := h.filled
  rw [← h.lists] at hfilled
  obtain ⟨blocks, hrun, hcontents, hsize⟩ :=
    Core.appendLoop_eq_ok blankTokenId hblock h.size hfilled (Nat.lt_succ_self tokenIds.length)
  rw [h.lists] at hcontents
  exact ⟨blocks, hrun, hcontents, hsize⟩

theorem appendTokensToBlocks_of_loop {blockSize : Nat} {tokenIds : List TokenId}
    {blocks blocks' : List LogicalTokenBlock}
    (h : appendLoop blankTokenId blockSize (tokenIds.length + 1) tokenIds blocks =
      .ok (some blocks')) :
    appendTokensToBlocks blankTokenId tokenIds blockSize blocks = .ok blocks' := by
  rw [appendTokensToBlocks, h]

/-! ## Runs -/

theorem withSeq_eq_ok {result : Except PyError Sequence} (h : s.withSeq result = .ok s') :
    ∃ seq, result = .ok seq ∧ s' = { s with seq } := by
  cases result with
  | ok seq =>
    cases h
    exact ⟨seq, rfl, rfl⟩
  | error exc => cases h

/-- A call that leaves the tokens where they are, or moves them into the prompt. -/
theorem Inv.withSeq (h : s.Inv) {seq : Sequence} (hsize : seq.blockSize = s.seq.blockSize)
    (hlists : seq.logicalTokenBlocks = s.seq.logicalTokenBlocks)
    (htokens : seq.promptTokenIds ++ seq.outputTokenIds =
      s.seq.promptTokenIds ++ s.seq.outputTokenIds) :
    Inv { s with seq } := by
  refine ⟨?_, ?_, ?_⟩
  · rw [hsize]
    exact h.size
  · rw [hlists]
    exact h.lists
  · rw [hsize, hlists, htokens]
    exact h.filled

/-- A new sequence: the blocks are filled with the prompt. -/
theorem new_eq_ok (blankTokenId : TokenId) (seqId : SeqId) (prompt : Text)
    (promptTokenIds : List TokenId) {blockSize : Nat} (hblock : 0 < blockSize)
    (eosTokenId : Option TokenId) (arrivalTime : Time) (samplingParams : SamplingParams) :
    ∃ s, new blankTokenId seqId prompt promptTokenIds blockSize eosTokenId arrivalTime
        samplingParams = .ok s ∧ s.Inv ∧ s.seq.blockSize = blockSize := by
  obtain ⟨blocks, hrun, hcontents, hsize⟩ :=
    appendLoop_eq_ok blankTokenId hblock (fun _ hb => absurd hb List.not_mem_nil)
      (filled_nil blockSize) (Nat.lt_succ_self promptTokenIds.length)
  refine ⟨_, seq_eq_ok.mpr ⟨blocks, appendTokensToBlocks_of_loop hrun, rfl⟩,
    ⟨hsize, hcontents, ?_⟩, rfl⟩
  show Filled blockSize (Core.appendTokensToBlocks blockSize [] promptTokenIds)
    (promptTokenIds ++ [])
  rw [List.append_nil]
  exact (filled_nil blockSize).loop hblock le_rfl

/-- `append_token_id` returns exactly if the prompt has been processed. -/
theorem Inv.appendTokenId (hblock : 0 < s.seq.blockSize) (h : s.Inv) (blankTokenId : TokenId)
    (tokenId : TokenId) (hprompt : s.seq.promptProcessingFinished = true) :
    ∃ s', s.appendTokenId blankTokenId tokenId = .ok s' ∧ s'.Inv ∧
      s'.seq.blockSize = s.seq.blockSize := by
  obtain ⟨blocks, hloop, hcontents, hsize⟩ := h.appendLoop_eq_ok hblock blankTokenId [tokenId]
  have hrun := appendTokensToBlocks_of_loop hloop
  have hseq : s.seq.appendTokenId tokenId = .ok { s.seq with
      outputTokenIds := s.seq.outputTokenIds ++ [tokenId]
      logicalTokenBlocks :=
        Core.appendTokensToBlocks s.seq.blockSize s.seq.logicalTokenBlocks [tokenId] } :=
    seq_eq_ok.mpr ⟨(), assertThat_eq_ok.mpr hprompt, rfl⟩
  refine ⟨_, seq_eq_ok.mpr ⟨_, congrArg s.withSeq hseq, seq_eq_ok.mpr ⟨blocks, hrun, rfl⟩⟩,
    ⟨hsize, hcontents, ?_⟩, rfl⟩
  show Filled s.seq.blockSize
    (Core.appendTokensToBlocks s.seq.blockSize s.seq.logicalTokenBlocks [tokenId])
    (s.seq.promptTokenIds ++ (s.seq.outputTokenIds ++ [tokenId]))
  rw [← List.append_assoc]
  exact h.filled.loop hblock le_rfl

/-- **Step lemma**: every call keeps the invariant and the block size. -/
theorem Inv.exec (hblock : 0 < s.seq.blockSize) (h : s.Inv) {call : Call}
    (hrun : exec blankTokenId call s = .ok s') :
    s'.Inv ∧ s'.seq.blockSize = s.seq.blockSize := by
  cases call with
  | appendTokenId tokenId =>
    -- the call has returned, so its assertion held
    obtain ⟨s₁, hwith, -⟩ := seq_eq_ok.mp hrun
    obtain ⟨seq, hseq, -⟩ := withSeq_eq_ok hwith
    obtain ⟨hprompt, -⟩ := appendTokenId_eq_ok hseq
    obtain ⟨s₂, happend, hinv, hsize⟩ := h.appendTokenId hblock blankTokenId tokenId hprompt
    obtain rfl := Except.ok.inj (happend.symm.trans hrun)
    exact ⟨hinv, hsize⟩
  | resetForRecompute =>
    obtain ⟨seq, hseq, rfl⟩ := withSeq_eq_ok hrun
    obtain rfl := resetForRecompute_eq_ok hseq
    refine ⟨h.withSeq rfl rfl ?_, rfl⟩
    simp [recomputed]
  | setStatus status =>
    obtain ⟨seq, hseq, rfl⟩ := withSeq_eq_ok hrun
    obtain ⟨-, rfl⟩ := setStatus_eq_ok.mp hseq
    exact ⟨h.withSeq rfl rfl rfl, rfl⟩
  | updatePromptTokensProcessed numTokens =>
    obtain ⟨seq, hseq, rfl⟩ := withSeq_eq_ok hrun
    obtain ⟨-, -, -, rfl⟩ := updatePromptTokensProcessed_eq_ok hseq
    exact ⟨h.withSeq rfl rfl rfl, rfl⟩

/-- **Logical blocks mirror the token list**: a sequence with a positive block size can be created,
    whatever its prompt, and in every state that calls of its methods lead to, its blocks hold the
    prompt followed by the output, all but the last are full, and their number is the length divided
    by the block size, rounded up.  `_append_tokens_to_blocks` returns in every such state for all
    tokens and for every bound on its turns from their number on; so `append_token_id` fails only
    before the prompt has been processed. -/
theorem logicalBlocks_mirror_tokens (blankTokenId : TokenId) (seqId : SeqId) (prompt : Text)
    (promptTokenIds : List TokenId) {blockSize : Nat} (hblock : 0 < blockSize)
    (eosTokenId : Option TokenId) (arrivalTime : Time) (samplingParams : SamplingParams) :
    ∃ s₀, new blankTokenId seqId prompt promptTokenIds blockSize eosTokenId arrivalTime
        samplingParams = .ok s₀ ∧
      ∀ s, Reaches (exec blankTokenId) (· = s₀) (fun _ _ => True) s →
        s.MirrorsTokens ∧
        (∀ tokenIds, ∃ blocks, ∀ fuel, tokenIds.length < fuel →
          appendLoop blankTokenId s.seq.blockSize fuel tokenIds s.logicalTokenBlocks =
            .ok (some blocks)) ∧
        ∀ tokenId, s.seq.promptProcessingFinished = true →
          ∃ s', s.appendTokenId blankTokenId tokenId = .ok s' := by
  obtain ⟨s₀, hnew, hinv₀, hsize₀⟩ := new_eq_ok blankTokenId seqId prompt promptTokenIds hblock
    eosTokenId arrivalTime samplingParams
  refine ⟨s₀, hnew, fun s hreach => ?_⟩
  obtain ⟨hinv, hsize⟩ : s.Inv ∧ s.seq.blockSize = blockSize := by
    apply hreach.invariant (fun s => s.Inv ∧ s.seq.blockSize = blockSize)
    · rintro _ rfl
      exact ⟨hinv₀, hsize₀⟩
    · rintro s call s' ⟨hs, hsize⟩ - hrun
      obtain ⟨hs', hsame⟩ := hs.exec (hsize ▸ hblock) hrun
      exact ⟨hs', hsame.trans hsize⟩
  have hpos : 0 < s.seq.blockSize := hsize ▸ hblock
  refine ⟨hinv.mirrorsTokens hpos, fun tokenIds => ?_, fun tokenId hprompt => ?_⟩
  · obtain ⟨blocks, hloop, -⟩ := hinv.appendLoop_eq_ok hpos blankTokenId tokenIds
    exact ⟨blocks, fun fuel hfuel => appendLoop_mono blankTokenId hfuel hloop⟩
  · obtain ⟨s', happend, -⟩ := hinv.appendTokenId hpos blankTokenId tokenId hprompt
    exact ⟨s', happend⟩

/-- The calls of a sequence that is processed, generates a token and is evicted. -/
def evictedCalls : List Call :=
  [.setStatus .running, .updatePromptTokensProcessed 3, .appendTokenId 8, .resetForRecompute]

/-- A prompt of three tokens in blocks of two: after its eviction two blocks hold the four tokens
    of the new prompt. -/
theorem evicted_mirrors_tokens :
    ∃ s₀ s, new 0 0 [] [5, 6, 7] 2 none 0 {} = .ok s₀ ∧
      evictedCalls.foldlM (fun s call => exec 0 call s) s₀ = .ok s ∧
      s.seq.promptTokenIds = [5, 6, 7, 8] ∧ s.MirrorsTokens := by
  obtain ⟨s₀, hnew, hruns⟩ :=
    logicalBlocks_mirror_tokens 0 0 [] [5, 6, 7] (show 0 < 2 by decide) none 0 {}
  obtain ⟨s, hrun, hprompt⟩ : ∃ s,
      (new 0 0 [] [5, 6, 7] 2 none 0 {} >>= evictedCalls.foldlM (fun s call => exec 0 call s)) =
        .ok s ∧ s.seq.promptTokenIds = [5, 6, 7, 8] := ⟨_, rfl, rfl⟩
  rw [hnew] at hrun
  have hreach : Reaches (exec 0) (· = s₀) (fun _ _ => True) s :=
    Reaches.foldlM (fun _ _ _ => trivial) (.init rfl) (checkGuards_true ..) hrun
  exact ⟨s₀, s, hnew, hrun, hprompt, (hruns s hreach).1⟩

end BlockedSequence

end VAttention.Manager
