import VAttention.Manager.History

/-!
# What is reported of a sequence

Each step that has a sequence in its batch, and each step that drops it, ends with a
`RequestOutput` of the sequence.  `ReportedRun` is the history of a sequence with these reports
and with the pieces of text that detokenisation yields for its tokens.

While a sequence goes on, its text is the concatenation of the pieces; the check that ends it
may cut a stop string off (`cutStop`).
-/

namespace VAttention.Manager

open VAttention.Core VAttention.Lib

/-- The text that detokenisation adds for a token. -/
def textPiece (detokenize : Detokenizer) (t : TokenId) (s : Sequence) : Text :=
  (detokenize (s.promptTokenIds ++ (s.outputTokenIds ++ [t])) s.tokens s.prefixOffset
    s.readOffset).newOutputText

/-- Histories with the pieces of text and the reports.  A reset is not reported by itself; a
    drop is reported unless the step has no batch. -/
inductive ReportedRun (detokenize : Detokenizer) (s₀ : Sequence) :
    List Text → List RequestOutput → Sequence → Prop where
  | nil : ReportedRun detokenize s₀ [] [] s₀
  | reset {pieces : List Text} {reports : List RequestOutput} {s s' : Sequence}
      {folded : List TokenId} (h : ReportedRun detokenize s₀ pieces reports s)
      (hmove : SeqMove (engineHooks detokenize) s (.reset folded) s') :
      ReportedRun detokenize s₀ pieces reports s'
  | chunk {pieces : List Text} {reports : List RequestOutput} {s s' : Sequence} {len : Int}
      (h : ReportedRun detokenize s₀ pieces reports s)
      (hmove : SeqMove (engineHooks detokenize) s (.chunk len) s') :
      ReportedRun detokenize s₀ pieces (reports ++ [.fromSeq s']) s'
  | token {pieces : List Text} {reports : List RequestOutput} {s s' : Sequence} {t : TokenId}
      (h : ReportedRun detokenize s₀ pieces reports s)
      (hmove : SeqMove (engineHooks detokenize) s (.token t) s') :
      ReportedRun detokenize s₀ (pieces ++ [textPiece detokenize t s])
        (reports ++ [.fromSeq s']) s'
  | drop {pieces : List Text} {reports : List RequestOutput} {s s' : Sequence}
      (h : ReportedRun detokenize s₀ pieces reports s)
      (hmove : SeqMove (engineHooks detokenize) s .drop s') (reported : Bool) :
      ReportedRun detokenize s₀ pieces (if reported then reports ++ [.fromSeq s'] else reports) s'

/-! ## The text of a sequence -/

/-- The stop string that `check_stop` finds at the end of a text. -/
def stopOf (stops : List Text) (text : Text) : Option Text :=
  stops.find? fun stop => stop.isSuffixOf text

theorem stopOf_eq_some {stops : List Text} {text stop : Text} (h : stopOf stops text = some stop) :
    stop ∈ stops ∧ stop <:+ text := by
  have hsuffix := List.find?_some h
  exact ⟨List.mem_of_find?_eq_some h, List.isSuffixOf_iff_suffix.mp hsuffix⟩

theorem stopOf_eq_none {stops : List Text} {text : Text} (h : stopOf stops text = none) :
    [] ∉ stops := by
  intro hmem
  have hnot := List.find?_eq_none.mp h [] hmem
  simp at hnot

/-- The text after `check_stop`. -/
def cutStop (stops : List Text) (text : Text) : Text :=
  match stopOf stops text with
  | some stop => Sequence.truncateStop text stop
  | none => text

/-- `check_stop` cuts the stop string off, and ends the sequence if there is one. -/
theorem checkStop_text {s s' : Sequence} (h : s.checkStop = .ok s') :
    s'.outputText = cutStop s.samplingParams.stop s.outputText ∧
      s'.samplingParams = s.samplingParams ∧
      (s'.isFinished = false → stopOf s.samplingParams.stop s.outputText = none) := by
  unfold Sequence.checkStop at h
  unfold cutStop
  cases hstop : stopOf s.samplingParams.stop s.outputText with
  | some stop =>
    rw [show (s.samplingParams.stop.find? fun stop => stop.isSuffixOf s.outputText) = some stop
      from hstop] at h
    have hfinished := setStatus_isFinished h
    obtain ⟨-, rfl⟩ := setStatus_eq_ok.mp h
    refine ⟨rfl, rfl, fun hnot => ?_⟩
    rw [hfinished] at hnot
    cases hnot
  | none =>
    rw [show (s.samplingParams.stop.find? fun stop => stop.isSuffixOf s.outputText) = none
      from hstop] at h
    dsimp only at h
    split_ifs at h with hlimit heos
    · obtain ⟨-, rfl⟩ := setStatus_eq_ok.mp h
      exact ⟨rfl, rfl, fun _ => rfl⟩
    · cases h
      exact ⟨rfl, rfl, fun _ => rfl⟩
    · obtain ⟨last, -, h⟩ := seq_eq_ok.mp h
      split_ifs at h
      · obtain ⟨-, rfl⟩ := setStatus_eq_ok.mp h
        exact ⟨rfl, rfl, fun _ => rfl⟩
      · cases h
        exact ⟨rfl, rfl, fun _ => rfl⟩

section Moves

variable {detokenize : Detokenizer} {s s' : Sequence}

theorem SeqMove.reset_text {folded : List TokenId}
    (h : SeqMove (engineHooks detokenize) s (.reset folded) s') :
    s'.outputText = s.outputText ∧ s'.samplingParams = s.samplingParams ∧
      s.isFinished = false ∧ s'.isFinished = false := by
  cases h with
  | reset hs => exact ⟨rfl, rfl, hs, rfl⟩

theorem SeqMove.chunk_text {len : Int}
    (h : SeqMove (engineHooks detokenize) s (.chunk len) s') :
    s'.outputText = s.outputText ∧ s'.samplingParams = s.samplingParams ∧
      s.isFinished = false ∧ s'.isFinished = false := by
  cases h with
  | chunk hs hprompt hadvance =>
    rw [advance_of_unfinished hprompt] at hadvance
    obtain ⟨-, -, -, rfl⟩ := updatePromptTokensProcessed_eq_ok hadvance
    exact ⟨rfl, rfl, hs, rfl⟩

theorem SeqMove.drop_text (h : SeqMove (engineHooks detokenize) s .drop s') :
    s'.outputText = s.outputText ∧ s'.samplingParams = s.samplingParams ∧
      s.isFinished = false ∧ s'.isFinished = true := by
  cases h with
  | drop hs => exact ⟨rfl, rfl, by simp [Sequence.isFinished, hs, SequenceStatus.isFinished], rfl⟩

/-- A token adds its piece, and then the stop string is cut off. -/
theorem SeqMove.token_text {t : TokenId} (h : SeqMove (engineHooks detokenize) s (.token t) s') :
    s'.outputText = cutStop s.samplingParams.stop (s.outputText ++ textPiece detokenize t s) ∧
      s'.samplingParams = s.samplingParams ∧ s.isFinished = false ∧
      (s'.isFinished = false →
        stopOf s.samplingParams.stop (s.outputText ++ textPiece detokenize t s) = none) := by
  cases h with
  | token hs hprompt hadvance =>
    rw [advance_of_finished hprompt] at hadvance
    obtain ⟨htext, hparams, hgoes⟩ := checkStop_text hadvance
    exact ⟨htext, hparams, hs, hgoes⟩

end Moves

/-- Text of a sequence along its history: while it goes on, the text is made of the pieces and
    ends with no stop string. -/
structure TextInv (s₀ : Sequence) (pieces : List Text) (s : Sequence) : Prop where
  params : s.samplingParams = s₀.samplingParams
  text : s.isFinished = false → s.outputText = pieces.flatten
  noStop : s.isFinished = false → pieces ≠ [] →
    stopOf s₀.samplingParams.stop pieces.flatten = none

theorem ReportedRun.textInv {detokenize : Detokenizer} {s₀ s : Sequence} {pieces : List Text}
    {reports : List RequestOutput} (hempty : s₀.outputText = [])
    (h : ReportedRun detokenize s₀ pieces reports s) : TextInv s₀ pieces s := by
  induction h with
  | nil => exact ⟨rfl, fun _ => hempty, fun _ hne => absurd rfl hne⟩
  | reset _ hmove ih =>
    obtain ⟨htext, hparams, hs, -⟩ := hmove.reset_text
    exact ⟨hparams.trans ih.params, fun _ => htext.trans (ih.text hs), fun _ => ih.noStop hs⟩
  | chunk _ hmove ih =>
    obtain ⟨htext, hparams, hs, -⟩ := hmove.chunk_text
    exact ⟨hparams.trans ih.params, fun _ => htext.trans (ih.text hs), fun _ => ih.noStop hs⟩
  | @token pieces reports s s' t _ hmove ih =>
    obtain ⟨htext, hparams, hs, hgoes⟩ := hmove.token_text
    have hpieces : s.outputText ++ textPiece detokenize t s =
        (pieces ++ [textPiece detokenize t s]).flatten := by
      rw [ih.text hs, List.flatten_concat]
    rw [hpieces, ih.params] at htext hgoes
    refine ⟨hparams.trans ih.params, fun hnot => ?_, fun hnot _ => hgoes hnot⟩
    rw [htext, cutStop, hgoes hnot]
  | drop _ hmove _ ih =>
    obtain ⟨-, hparams, -, hfinished⟩ := hmove.drop_text
    refine ⟨hparams.trans ih.params, fun hnot => ?_, fun hnot => ?_⟩ <;>
      · rw [hfinished] at hnot
        cases hnot

end VAttention.Manager
