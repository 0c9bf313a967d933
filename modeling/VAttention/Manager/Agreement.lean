import VAttention.Manager.Views

/-!
# Engine and worker copies of a sequence

Only the engine detokenises, so its copy of a sequence and a worker's copy differ in the
generated text.  `core` forgets the text; a worker's copy is the core of the engine's copy as
long as the engine has not finished the sequence (`advance_core`).  The two sides can only
part when a stop string ends the sequence on the engine (`advance_core_isFinished_iff`).
-/

namespace VAttention.Manager

open VAttention.Core VAttention.Lib

/-- A sequence without the fields that only detokenisation writes. -/
def core (s : Sequence) : Sequence :=
  { s with outputText := [], prefixOffset := 0, readOffset := 0, tokens := none }

/-- Hooks that write nothing but the text of a sequence. -/
def TextOnly {μ : Type} (hooks : ManagerHooks μ) : Prop :=
  ∀ s, core (hooks.onAppendToken s) = core s

theorem engineHooks_textOnly (detokenize : Detokenizer) : TextOnly (engineHooks detokenize) :=
  fun _ => rfl

theorem workerHooks_textOnly (β : Type) [BlockSpaceManager β] : TextOnly (workerHooks β) :=
  fun _ => rfl

/-! ## Well-formed sequences -/

/-- What holds of every sequence the scheduler still has. -/
structure Regular (s : Sequence) : Prop where
  outputs_nil : s.promptProcessingFinished = false → s.outputTokenIds = []
  processed_eq : s.promptProcessingFinished = true →
    s.promptTokensProcessed = s.promptTokenIds.length
  processed_le : s.promptTokensProcessed ≤ s.promptTokenIds.length
  output_lt : s.outputTokenIds.length < s.samplingParams.maxTokens

/-- Being regular does not depend on the text. -/
theorem regular_core {s : Sequence} : Regular (core s) ↔ Regular s :=
  ⟨fun ⟨h₁, h₂, h₃, h₄⟩ => ⟨h₁, h₂, h₃, h₄⟩, fun ⟨h₁, h₂, h₃, h₄⟩ => ⟨h₁, h₂, h₃, h₄⟩⟩

theorem Regular.withStatus {s : Sequence} (h : Regular s) (status : SequenceStatus) :
    Regular { s with status } :=
  ⟨h.outputs_nil, h.processed_eq, h.processed_le, h.output_lt⟩

theorem regular_recomputed (s : Sequence) : Regular (recomputed s) where
  outputs_nil _ := rfl
  processed_eq h := by simp [recomputed] at h
  processed_le := Nat.zero_le _
  output_lt := s.samplingParams.maxTokens_pos

theorem Regular.entering {s : Sequence} (h : Regular s) (out : SchedulerOutputs) (id : SeqId) :
    Regular (entering out id s) := by
  unfold Manager.entering
  split_ifs
  · exact (regular_recomputed s).withStatus .running
  · exact h.withStatus .running

/-! ## The stop conditions -/

/-- A stop string ends the text. -/
def stopsByText (s : Sequence) : Bool :=
  s.samplingParams.stop.any fun stop => stop.isSuffixOf s.outputText

/-- The token limit is reached, or the last token is the end-of-sequence token. -/
def stopsByCount (s : Sequence) : Bool :=
  s.getOutputLen == s.samplingParams.maxTokens ||
    (!s.samplingParams.ignoreEos &&
      match s.getLastTokenId with
      | .ok last => some last == s.eosTokenId
      | .error _ => false)

theorem stopsByCount_core (s : Sequence) : stopsByCount (core s) = stopsByCount s := rfl

/-- Without text, only the empty stop string stops, and it stops any text. -/
theorem stopsByText_of_core {s : Sequence} (h : stopsByText (core s) = true) :
    stopsByText s = true := by
  simp only [stopsByText, core, List.any_eq_true, List.isSuffixOf_iff_suffix,
    List.suffix_nil] at h ⊢
  obtain ⟨stop, hmem, rfl⟩ := h
  exact ⟨[], hmem, List.nil_suffix⟩

theorem setStatus_isFinished {s s' : Sequence} {status : SequenceStatus}
    (h : s.setStatus status = .ok s') : s'.isFinished = status.isFinished := by
  obtain ⟨-, rfl⟩ := setStatus_eq_ok.mp h
  rfl

/-- `check_stop` finishes a sequence exactly on a stop condition, and changes no more than its
    text and its status. -/
theorem checkStop_spec {s s' : Sequence} (hrunning : s.isFinished = false)
    (h : s.checkStop = .ok s') :
    s'.isFinished = (stopsByText s || stopsByCount s) ∧
      (s'.isFinished = false → s' = s) ∧
      ∃ outputText status, s' = { s with outputText, status } := by
  unfold Sequence.checkStop at h
  have htext : stopsByText s =
      (s.samplingParams.stop.find? fun stop => stop.isSuffixOf s.outputText).isSome :=
    List.isSome_find?.symm
  split at h
  -- a stop string: the text is cut there
  · rename_i stop hfind
    have hfinished := setStatus_isFinished h
    obtain ⟨-, rfl⟩ := setStatus_eq_ok.mp h
    rw [hfind] at htext
    refine ⟨by rw [htext, hfinished]; rfl, fun hnot => ?_, _, _, rfl⟩
    rw [hfinished] at hnot
    cases hnot
  -- no stop string: the limit, then the end-of-sequence token
  · rename_i hfind
    rw [hfind] at htext
    rw [htext]
    split_ifs at h with hlimit heos
    · have hfinished := setStatus_isFinished h
      obtain ⟨-, rfl⟩ := setStatus_eq_ok.mp h
      refine ⟨?_, ?_, _, _, rfl⟩ <;> rw [hfinished]
      · simp [stopsByCount, hlimit, SequenceStatus.isFinished]
      rintro ⟨⟩
    · cases h
      refine ⟨by rw [hrunning]; simp [stopsByCount, hlimit, heos], fun _ => rfl, _, _, rfl⟩
    · obtain ⟨last, hlast, h⟩ := seq_eq_ok.mp h
      split_ifs at h with hstop
      · have hfinished := setStatus_isFinished h
        obtain ⟨-, rfl⟩ := setStatus_eq_ok.mp h
        refine ⟨?_, ?_, _, _, rfl⟩
        · rw [hfinished]
          simp [stopsByCount, heos, hlast, hstop, SequenceStatus.isFinished]
        · rw [hfinished]
          rintro ⟨⟩
      · cases h
        refine ⟨?_, fun _ => rfl, _, _, rfl⟩
        rw [hrunning]
        simp [stopsByCount, hlimit, hlast, hstop]

/-! ## Advancing -/

/-- The object with one more output token. -/
def appended (t : TokenId) (s : Sequence) : Sequence :=
  { s with
    outputTokenIds := s.outputTokenIds ++ [t]
    logicalTokenBlocks := appendTokensToBlocks s.blockSize s.logicalTokenBlocks [t] }

/-- The object that `check_stop` sees after token `t`. -/
def decoded {μ : Type} (hooks : ManagerHooks μ) (t : TokenId) (s : Sequence) : Sequence :=
  hooks.onAppendToken (appended t { s with status := .paused })

section Advance

variable {μ : Type} {hooks : ManagerHooks μ} {t : TokenId} {chunkLen : Int} {s s' : Sequence}

/-- The two ways to advance: a chunk of the prompt, or one output token. -/
theorem advance_eq_ok (h : advance hooks t chunkLen s = .ok s') :
    (s.promptProcessingFinished = false ∧ 0 < chunkLen ∧
        s.promptTokensProcessed + chunkLen.toNat ≤ s.promptTokenIds.length ∧
        s' = { s with
          status := .paused
          promptTokensProcessed := s.promptTokensProcessed + chunkLen.toNat
          promptProcessingFinished :=
            s.promptTokensProcessed + chunkLen.toNat == s.promptTokenIds.length }) ∨
      s.promptProcessingFinished = true ∧ (decoded hooks t s).checkStop = .ok s' := by
  unfold advance at h
  dsimp only at h
  split_ifs at h with hprompt
  · obtain ⟨hunfinished, hpos, hle, rfl⟩ := updatePromptTokensProcessed_eq_ok h
    exact .inl ⟨hunfinished, hpos, hle, rfl⟩
  · obtain ⟨s₁, happend, h⟩ := seq_eq_ok.mp h
    obtain ⟨hfinished, rfl⟩ := appendTokenId_eq_ok happend
    exact .inr ⟨hfinished, h⟩

theorem advance_of_unfinished (hprompt : s.promptProcessingFinished = false) :
    advance hooks t chunkLen s =
      { s with status := .paused }.updatePromptTokensProcessed chunkLen := by
  simp [advance, hprompt]

theorem advance_of_finished (hprompt : s.promptProcessingFinished = true) :
    advance hooks t chunkLen s = (decoded hooks t s).checkStop := by
  simp [advance, hprompt, Sequence.appendTokenId, assertThat, decoded, appended, Bind.bind,
    Except.bind, pure, Except.pure]

variable (htext : TextOnly hooks)

include htext in
theorem core_decoded : core (decoded hooks t s) = core (appended t { s with status := .paused }) :=
  htext _

include htext in
theorem decoded_isFinished : (decoded hooks t s).isFinished = false := by
  have hstatus : (decoded hooks t s).status = .paused :=
    congrArg Sequence.status (core_decoded htext (s := s) (t := t))
  simp [Sequence.isFinished, hstatus, SequenceStatus.isFinished]

include htext in
/-- Advancing keeps the identity, the prompt and the sampling parameters. -/
theorem advance_keeps (h : advance hooks t chunkLen s = .ok s') :
    s'.seqId = s.seqId ∧ s'.promptTokenIds = s.promptTokenIds ∧
      s'.samplingParams = s.samplingParams := by
  rcases advance_eq_ok h with ⟨-, -, -, rfl⟩ | ⟨-, hstop⟩
  · exact ⟨rfl, rfl, rfl⟩
  · obtain ⟨-, -, text, status, rfl⟩ := checkStop_spec (decoded_isFinished htext) hstop
    have hcore := core_decoded htext (s := s) (t := t)
    have hid := congrArg Sequence.seqId hcore
    have hprompt := congrArg Sequence.promptTokenIds hcore
    have hparams := congrArg Sequence.samplingParams hcore
    exact ⟨hid, hprompt, hparams⟩

include htext in
/-- A sequence that goes on is paused and stays well formed. -/
theorem advance_regular (hs : Regular s) (h : advance hooks t chunkLen s = .ok s')
    (hnot : s'.isFinished = false) : Regular s' ∧ s'.status = .paused := by
  rcases advance_eq_ok h with ⟨hprompt, hpos, hle, rfl⟩ | ⟨hprompt, hstop⟩
  · refine ⟨⟨fun _ => hs.outputs_nil hprompt, fun hfin => ?_, hle, hs.output_lt⟩, rfl⟩
    simpa using hfin
  · obtain ⟨hfinished, hsame, -⟩ := checkStop_spec (decoded_isFinished htext) hstop
    -- it goes on, so neither condition held; the token limit is the one that matters
    have hcount : stopsByCount (decoded hooks t s) = false := by
      rw [hnot] at hfinished
      simp only [Bool.false_eq, Bool.or_eq_false_iff] at hfinished
      exact hfinished.2
    rw [hsame hnot]
    have hcore := core_decoded htext (s := s) (t := t)
    rw [← stopsByCount_core, hcore, stopsByCount_core] at hcount
    have hlen : s.outputTokenIds.length + 1 ≠ s.samplingParams.maxTokens := by
      intro heq
      simp [stopsByCount, appended, Sequence.getOutputLen, heq] at hcount
    refine ⟨regular_core.mp ?_, congrArg Sequence.status hcore⟩
    rw [hcore]
    refine ⟨fun hun => ?_, fun _ => hs.processed_eq hprompt, hs.processed_le, ?_⟩
    · rw [show (core (appended t { s with status := .paused })).promptProcessingFinished
        = s.promptProcessingFinished from rfl, hprompt] at hun
      cases hun
    · have hlt := hs.output_lt
      simp only [core, appended, List.length_append, List.length_singleton]
      omega

/-! ### The worker's copy -/

/-- The sequence that `check_stop` lets go on without its text goes on, too. -/
theorem checkStop_core {d d' : Sequence} (h : d.checkStop = .ok d') (hnot : d'.isFinished = false)
    (hrunning : d.isFinished = false) : (core d).checkStop = .ok (core d) := by
  obtain ⟨hfinished, -, -⟩ := checkStop_spec hrunning h
  rw [hnot] at hfinished
  simp only [Bool.false_eq, Bool.or_eq_false_iff] at hfinished
  have hfind (x : Sequence) (hx : stopsByText x = false) :
      (x.samplingParams.stop.find? fun stop => stop.isSuffixOf x.outputText) = none := by
    rw [stopsByText, ← List.isSome_find?] at hx
    simpa using hx
  -- of the stop strings only the empty one could stop it, which would stop `d`, too
  have hcore : stopsByText (core d) = false :=
    eq_false_of_ne_true fun htrue => by simp [stopsByText_of_core htrue] at hfinished
  unfold Sequence.checkStop at h ⊢
  rw [hfind _ hfinished.1] at h
  rw [hfind _ hcore]
  have hcount := hfinished.2
  dsimp only at h ⊢
  split_ifs at h with hlimit heos
  · simp [stopsByCount, hlimit] at hcount
  · rw [if_neg (by exact hlimit), if_pos (by exact heos)]
  · rw [if_neg (by exact hlimit), if_neg (by exact heos)]
    obtain ⟨last, hlast, h⟩ := seq_eq_ok.mp h
    refine seq_eq_ok.mpr ⟨last, hlast, ?_⟩
    split_ifs at h with hstop
    · have := setStatus_isFinished h
      simp [hnot, SequenceStatus.isFinished] at this
    · exact if_neg (by exact hstop)

/-- What a worker's `check_stop` sees. -/
theorem decoded_workerHooks (β : Type) [BlockSpaceManager β] (htext : TextOnly hooks) :
    decoded (workerHooks β) t (core s) = core (decoded hooks t s) :=
  (core_decoded htext).symm

/-- **Agreement**: while the engine's copy goes on, the worker's copy is its core. -/
theorem advance_core (β : Type) [BlockSpaceManager β] (htext : TextOnly hooks)
    (h : advance hooks t chunkLen s = .ok s') (hnot : s'.isFinished = false) :
    advance (workerHooks β) t chunkLen (core s) = .ok (core s') := by
  rcases advance_eq_ok h with ⟨hprompt, hpos, hle, rfl⟩ | ⟨hprompt, hstop⟩
  · rw [advance_of_unfinished (by exact hprompt)]
    simp [Sequence.updatePromptTokensProcessed, assertThat, core, hprompt, hpos, hle, Bind.bind,
      Except.bind, pure, Except.pure]
  · rw [advance_of_finished (by exact hprompt), decoded_workerHooks β htext]
    obtain ⟨-, hsame, -⟩ := checkStop_spec (decoded_isFinished htext) hstop
    rw [checkStop_core hstop hnot (decoded_isFinished htext), hsame hnot]

/-- A stop string that the worker does not see ends the sequence on the engine only. -/
def StopHarmless (hooks : ManagerHooks μ) (t : TokenId) (s : Sequence) : Prop :=
  stopsByText (decoded hooks t s) = true →
    stopsByText (core (decoded hooks t s)) = true ∨ stopsByCount (decoded hooks t s) = true

/-- Both copies finish in the same round exactly when no stop string parts them. -/
theorem advance_core_isFinished_iff (β : Type) [BlockSpaceManager β] (htext : TextOnly hooks)
    {w' : Sequence} (h : advance hooks t chunkLen s = .ok s')
    (hw : advance (workerHooks β) t chunkLen (core s) = .ok w') :
    (w'.isFinished = s'.isFinished) ↔
      (s.promptProcessingFinished = true → StopHarmless hooks t s) := by
  rcases advance_eq_ok h with ⟨hprompt, -, -, rfl⟩ | ⟨hprompt, hstop⟩
  · rw [advance_of_unfinished (by exact hprompt)] at hw
    obtain ⟨-, -, -, rfl⟩ := updatePromptTokensProcessed_eq_ok hw
    simp [hprompt, Sequence.isFinished]
  · rw [advance_of_finished (by exact hprompt), decoded_workerHooks β htext] at hw
    have hrunning := decoded_isFinished htext (s := s) (t := t)
    obtain ⟨hfinished, -, -⟩ := checkStop_spec hrunning hstop
    obtain ⟨hwfinished, -, -⟩ := checkStop_spec (by exact hrunning) hw
    have hcore := stopsByText_of_core (s := decoded hooks t s)
    rw [hfinished, hwfinished, stopsByCount_core]
    unfold StopHarmless
    -- what is left is a statement about three booleans
    revert hcore
    cases stopsByText (decoded hooks t s) <;> cases stopsByText (core (decoded hooks t s)) <;>
      cases stopsByCount (decoded hooks t s) <;> simp [hprompt]

end Advance

end VAttention.Manager
