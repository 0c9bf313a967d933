import VAttention.Manager.Reports

/-!
# Streaming a completion

`completion_stream_generator` gets the `RequestOutput`s of all prompts of a request in one
merged stream and sends, for each of them, the part of its text beyond the length of the text
it saw last for that prompt.

The text of a sequence grows piece by piece until `check_stop` cuts a stop string off its end.
If the stop string began in an earlier piece, a part of it has been sent already and the final
text is shorter than what the client has: the streamed text is the final one exactly where the
stop string lies within the last piece.

A client that disconnects is left out.
-/

namespace VAttention.Serving

open VAttention.Core VAttention.Lib VAttention.Manager

/-- The fields of `CompletionRequest` that streaming reads. -/
structure CompletionRequest where
  maxTokens : Option Nat
  echo : Bool := false
  /-- `stream_options.include_usage` -/
  includeUsage : Bool := false

/-- `UsageInfo` -/
structure UsageInfo where
  promptTokens : Nat
  completionTokens : Nat
  totalTokens : Nat
deriving DecidableEq

/-- `CompletionResponseStreamChoice` -/
structure StreamChoice where
  index : Nat
  text : Text
  finishReason : Option String
deriving DecidableEq

/-- `CompletionStreamResponse`, without the id, the model and the time. -/
structure StreamChunk where
  choices : List StreamChoice
  usage : Option UsageInfo
deriving DecidableEq

/-- The local variables of the generator, by prompt where the source has a list. -/
structure StreamState where
  previousTexts : Nat → Text
  hasEchoed : Nat → Bool
  /-- Unbound in the source until the first result. -/
  finalUsage : Option UsageInfo

/-- `final_usage` after a result. -/
def usageOf (res : RequestOutput) : Option UsageInfo :=
  res.finishReason.map fun _ =>
    ⟨res.promptTokenIds.length, res.tokenIds.length,
      res.promptTokenIds.length + res.tokenIds.length⟩

namespace StreamState

def start : StreamState where
  previousTexts _ := []
  hasEchoed _ := false
  finalUsage := none

/-- One turn of the loop over the results. -/
def send (request : CompletionRequest) (st : StreamState) (i : Nat) (res : RequestOutput) :
    Except PyError (StreamState × StreamChunk) := do
  assertThat request.maxTokens.isSome (.assertionError "request.max_tokens is not None")
  let (deltaText, hasEchoed) :=
    if request.echo && request.maxTokens == some 0 then
      (res.prompt, Function.update st.hasEchoed i true)
    else if request.echo && !st.hasEchoed i then
      (res.prompt ++ res.text, Function.update st.hasEchoed i true)
    else (res.text.drop (st.previousTexts i).length, st.hasEchoed)
  pure ({ previousTexts := Function.update st.previousTexts i res.text
          hasEchoed
          finalUsage := usageOf res },
    ⟨[⟨i, deltaText, res.finishReason⟩], none⟩)

/-- The loop over the results. -/
def sendAll (request : CompletionRequest) :
    StreamState → List (Nat × RequestOutput) → Except PyError (StreamState × List StreamChunk)
  | st, [] => pure (st, [])
  | st, (i, res) :: results => do
    let (st, chunk) ← st.send request i res
    let (st, chunks) ← st.sendAll request results
    pure (st, chunk :: chunks)

end StreamState

/-- `completion_stream_generator` on the merged results. -/
def completionStreamGenerator (request : CompletionRequest)
    (results : List (Nat × RequestOutput)) : Except PyError (List StreamChunk) := do
  let (st, chunks) ← StreamState.start.sendAll request results
  pure (if request.includeUsage then chunks ++ [⟨[], st.finalUsage⟩] else chunks)

/-- All text sent for one prompt. -/
def streamedText (i : Nat) (chunks : List StreamChunk) : Text :=
  ((chunks.flatMap (·.choices)).filter (·.index == i)).flatMap (·.text)

/-- The results of one prompt, in order. -/
def resultsOf (i : Nat) (results : List (Nat × RequestOutput)) : List RequestOutput :=
  (results.filter (·.1 == i)).map (·.2)

/-! ## The deltas of one prompt -/

/-- The deltas of one prompt put together, after the text `previous`. -/
def deltas (previous : Text) : List RequestOutput → Text
  | [] => []
  | res :: results => res.text.drop previous.length ++ deltas res.text results

/-- The text that the generator saw last. -/
def lastText (previous : Text) (results : List RequestOutput) : Text :=
  (results.getLast?.map (·.text)).getD previous

theorem lastText_concat (previous : Text) (results : List RequestOutput) (res : RequestOutput) :
    lastText previous (results ++ [res]) = res.text := by
  simp [lastText]

theorem lastText_cons (previous : Text) (res : RequestOutput) (results : List RequestOutput) :
    lastText previous (res :: results) = lastText res.text results := by
  cases results with
  | nil => rfl
  | cons head tail => simp [lastText, List.getLast?_cons]

theorem deltas_concat (previous : Text) (results : List RequestOutput) (res : RequestOutput) :
    deltas previous (results ++ [res]) =
      deltas previous results ++ res.text.drop (lastText previous results).length := by
  induction results generalizing previous with
  | nil => simp [deltas, lastText]
  | cons head tail ih => rw [List.cons_append, deltas, deltas, ih, lastText_cons,
      List.append_assoc]

theorem streamedText_cons (i : Nat) (choice : StreamChoice) (usage : Option UsageInfo)
    (chunks : List StreamChunk) :
    streamedText i (⟨[choice], usage⟩ :: chunks) =
      (if choice.index = i then choice.text else []) ++ streamedText i chunks := by
  by_cases hindex : choice.index = i
  · simp [streamedText, hindex]
  · simp [streamedText, hindex]

theorem streamedText_usage (i : Nat) (chunks : List StreamChunk) (usage : Option UsageInfo) :
    streamedText i (chunks ++ [⟨[], usage⟩]) = streamedText i chunks := by
  simp [streamedText]

section WithoutEcho

variable {request : CompletionRequest}

/-- Without echo a result is sent as the text beyond the previous one. -/
theorem send_of_not_echo (hecho : request.echo = false) (hmax : request.maxTokens.isSome = true)
    (st : StreamState) (i : Nat) (res : RequestOutput) :
    st.send request i res = .ok
      ({ previousTexts := Function.update st.previousTexts i res.text
         hasEchoed := st.hasEchoed
         finalUsage := usageOf res },
        ⟨[⟨i, res.text.drop (st.previousTexts i).length, res.finishReason⟩], none⟩) := by
  simp only [StreamState.send, hecho, hmax, assertThat, Bool.false_and, Bool.false_eq_true,
    if_false, if_true]
  rfl

/-- The text sent for a prompt does not depend on the results of the others. -/
theorem sendAll_of_not_echo (hecho : request.echo = false)
    (hmax : request.maxTokens.isSome = true) (st : StreamState)
    (results : List (Nat × RequestOutput)) :
    ∃ st' chunks, st.sendAll request results = .ok (st', chunks) ∧
      ∀ i, streamedText i chunks = deltas (st.previousTexts i) (resultsOf i results) := by
  induction results generalizing st with
  | nil => exact ⟨st, [], rfl, fun i => rfl⟩
  | cons result results ih =>
    obtain ⟨k, res⟩ := result
    obtain ⟨st', chunks, hrest, htexts⟩ := ih ⟨Function.update st.previousTexts k res.text,
      st.hasEchoed, usageOf res⟩
    refine ⟨st',
      ⟨[⟨k, res.text.drop (st.previousTexts k).length, res.finishReason⟩], none⟩ :: chunks,
      ?_, fun i => ?_⟩
    · rw [StreamState.sendAll, send_of_not_echo hecho hmax]
      simp only [Bind.bind, Except.bind, hrest]
      rfl
    · rw [streamedText_cons, htexts]
      by_cases hk : k = i
      · subst hk
        simp [resultsOf, deltas]
      · simp [resultsOf, hk, Ne.symm hk]

/-- **What is streamed for a prompt** are the deltas of its results. -/
theorem completionStreamGenerator_of_not_echo (hecho : request.echo = false)
    (hmax : request.maxTokens.isSome = true) (results : List (Nat × RequestOutput)) :
    ∃ chunks, completionStreamGenerator request results = .ok chunks ∧
      ∀ i, streamedText i chunks = deltas [] (resultsOf i results) := by
  obtain ⟨st, chunks, hsend, htexts⟩ := sendAll_of_not_echo hecho hmax .start results
  refine ⟨_, seq_eq_ok.mpr ⟨(st, chunks), hsend, rfl⟩, fun i => ?_⟩
  split
  · rw [streamedText_usage]
    exact htexts i
  · exact htexts i

end WithoutEcho

/-! ## Against the final text -/

/-- The stop string that ends a text, if there is one, is not longer than the last piece. -/
def StopWithinLastPiece (stops pieces : List Text) : Prop :=
  ∀ stop, stopOf stops pieces.flatten = some stop → stop.length ≤ (pieces.getLastD []).length

theorem length_truncateStop {text stop : Text} (hne : stop ≠ []) :
    (Sequence.truncateStop text stop).length = text.length - stop.length := by
  simp [Sequence.truncateStop, hne]

/-- The text sent before the last piece and the rest of the cut text make up the cut text
    exactly where the stop string lies within the last piece. -/
theorem append_drop_cutStop {stops : List Text} {text piece : Text}
    (hearlier : text ≠ [] → stopOf stops text = none) :
    text ++ (cutStop stops (text ++ piece)).drop text.length = cutStop stops (text ++ piece) ↔
      ∀ stop, stopOf stops (text ++ piece) = some stop → stop.length ≤ piece.length := by
  unfold cutStop
  cases hstop : stopOf stops (text ++ piece) with
  | none => simp
  | some stop =>
    simp only [Option.some.injEq, forall_eq']
    by_cases hempty : stop = []
    · -- an empty stop string stops at the first token, before anything was sent
      subst hempty
      have htext : text = [] := by
        by_contra hne
        exact stopOf_eq_none (hearlier hne) (stopOf_eq_some hstop).1
      simp [htext, Sequence.truncateStop]
    · by_cases hwithin : stop.length ≤ piece.length
      · have hcut : Sequence.truncateStop (text ++ piece) stop =
            text ++ piece.take (piece.length - stop.length) := by
          rw [Sequence.truncateStop, if_neg (by simpa using hempty), List.length_append,
            Nat.add_sub_assoc hwithin, List.take_length_add_append]
        simp [hcut, hwithin]
      · -- the cut text is shorter than what was sent
        refine ⟨fun heq => ?_, fun h => absurd h hwithin⟩
        have hsuffix := (stopOf_eq_some hstop).2.length_le
        have hlen := congrArg List.length heq
        rw [List.length_append, List.length_drop, length_truncateStop hempty,
          List.length_append] at hlen
        rw [List.length_append] at hsuffix
        omega

/-- What has been streamed of a sequence: its whole text while it goes on, and its final text
    exactly where the stop string lies within the last piece. -/
structure StreamInv (s₀ : Sequence) (pieces : List Text) (reports : List RequestOutput)
    (s : Sequence) : Prop where
  sent : s.isFinished = false → deltas [] reports = s.outputText
  last : s.isFinished = false → lastText [] reports = s.outputText
  final : s.isFinished = true →
    (deltas [] reports = s.outputText ↔ StopWithinLastPiece s₀.samplingParams.stop pieces)
  finished : ∀ res, reports.getLast? = some res → res.finished = true →
    s.isFinished = true ∧ res = .fromSeq s

section Runs

variable {detokenize : Detokenizer} {s₀ s s' : Sequence} {pieces : List Text}
  {reports : List RequestOutput}

/-- A report of the same text sends nothing. -/
theorem StreamInv.deltas_report (h : StreamInv s₀ pieces reports s) (hs : s.isFinished = false)
    (htext : s'.outputText = s.outputText) :
    deltas [] (reports ++ [.fromSeq s']) = s'.outputText := by
  rw [deltas_concat, h.sent hs, h.last hs, htext]
  simp [RequestOutput.fromSeq, htext]

theorem StreamInv.reset {folded : List TokenId} (h : StreamInv s₀ pieces reports s)
    (hmove : SeqMove (engineHooks detokenize) s (.reset folded) s') :
    StreamInv s₀ pieces reports s' := by
  obtain ⟨htext, -, hs, hs'⟩ := hmove.reset_text
  constructor
  case sent => exact fun _ => htext ▸ h.sent hs
  case last => exact fun _ => htext ▸ h.last hs
  case final => intro hfinished; rw [hs'] at hfinished; cases hfinished
  case finished =>
    intro res hres hfinished
    obtain ⟨hcontra, -⟩ := h.finished res hres hfinished
    rw [hs] at hcontra
    cases hcontra

theorem StreamInv.chunk {len : Int} (h : StreamInv s₀ pieces reports s)
    (hmove : SeqMove (engineHooks detokenize) s (.chunk len) s') :
    StreamInv s₀ pieces (reports ++ [.fromSeq s']) s' := by
  obtain ⟨htext, -, hs, hs'⟩ := hmove.chunk_text
  constructor
  case sent => exact fun _ => h.deltas_report hs htext
  case last => exact fun _ => lastText_concat ..
  case final => intro hfinished; rw [hs'] at hfinished; cases hfinished
  case finished =>
    intro res hres hfinished
    simp only [List.getLast?_concat, Option.some.injEq] at hres
    subst hres
    exact ⟨hfinished, rfl⟩

theorem StreamInv.token {t : TokenId} (htextInv : TextInv s₀ pieces s)
    (h : StreamInv s₀ pieces reports s)
    (hmove : SeqMove (engineHooks detokenize) s (.token t) s') :
    StreamInv s₀ (pieces ++ [textPiece detokenize t s]) (reports ++ [.fromSeq s']) s' := by
  obtain ⟨htext, hparams, hs, hgoes⟩ := hmove.token_text
  rw [htextInv.params] at htext hgoes
  have hsent : deltas [] (reports ++ [.fromSeq s']) =
      s.outputText ++ s'.outputText.drop s.outputText.length := by
    rw [deltas_concat, h.sent hs, h.last hs]
    rfl
  constructor
  case sent =>
    intro hnot
    have htext' : s'.outputText = s.outputText ++ textPiece detokenize t s := by
      rw [htext, cutStop, hgoes hnot]
    rw [hsent, htext', List.drop_left]
  case last => exact fun _ => lastText_concat ..
  case final =>
    intro _
    have hearlier : s.outputText ≠ [] → stopOf s₀.samplingParams.stop s.outputText = none := by
      intro hne
      rw [htextInv.text hs] at hne ⊢
      exact htextInv.noStop hs fun hnil => hne (by rw [hnil, List.flatten_nil])
    rw [hsent, htext, append_drop_cutStop hearlier, StopWithinLastPiece, List.flatten_concat,
      ← htextInv.text hs]
    simp
  case finished =>
    intro res hres hfinished
    simp only [List.getLast?_concat, Option.some.injEq] at hres
    subst hres
    exact ⟨hfinished, rfl⟩

theorem StreamInv.drop (htextInv : TextInv s₀ pieces s) (h : StreamInv s₀ pieces reports s)
    (hmove : SeqMove (engineHooks detokenize) s .drop s') (reported : Bool) :
    StreamInv s₀ pieces (if reported then reports ++ [.fromSeq s'] else reports) s' := by
  obtain ⟨htext, -, hs, hs'⟩ := hmove.drop_text
  have hwithin : StopWithinLastPiece s₀.samplingParams.stop pieces := by
    intro stop hstop
    by_cases hpieces : pieces = []
    · subst hpieces
      have hsuffix := (stopOf_eq_some hstop).2
      rw [List.flatten_nil, List.suffix_nil] at hsuffix
      simp [hsuffix]
    · rw [htextInv.noStop hs hpieces] at hstop
      cases hstop
  constructor
  case sent => intro hnot; rw [hs'] at hnot; cases hnot
  case last => intro hnot; rw [hs'] at hnot; cases hnot
  case final =>
    intro _
    refine iff_of_true ?_ hwithin
    split
    · exact h.deltas_report hs htext
    · rw [h.sent hs, htext]
  case finished =>
    intro res hres hfinished
    split at hres
    · simp only [List.getLast?_concat, Option.some.injEq] at hres
      subst hres
      exact ⟨hfinished, rfl⟩
    · obtain ⟨hcontra, -⟩ := h.finished res hres hfinished
      rw [hs] at hcontra
      cases hcontra

theorem streamInv_of_reportedRun (hempty : s₀.outputText = []) (hstart : s₀.isFinished = false)
    (h : ReportedRun detokenize s₀ pieces reports s) : StreamInv s₀ pieces reports s := by
  induction h with
  | nil =>
    refine ⟨fun _ => hempty.symm, fun _ => hempty.symm, fun hfinished => ?_, fun res hres => ?_⟩
    · rw [hstart] at hfinished
      cases hfinished
    · cases hres
  | reset _ hmove ih => exact ih.reset hmove
  | chunk _ hmove ih => exact ih.chunk hmove
  | token hrun hmove ih => exact ih.token (hrun.textInv hempty) hmove
  | drop hrun hmove reported ih => exact ih.drop (hrun.textInv hempty) hmove reported

end Runs

/-- **Streaming equals the final answer exactly where the stop string lies within the last
    piece.**  The request is without echo; the results of all its prompts come in any order,
    and those of prompt `i` are the reports of a sequence, the last of which is its final one. -/
theorem streamedText_eq_final_iff (request : CompletionRequest)
    (results : List (Nat × RequestOutput)) (i : Nat) {detokenize : Detokenizer}
    {s₀ s : Sequence} {pieces : List Text} {final : RequestOutput} (hecho : request.echo = false)
    (hmax : request.maxTokens.isSome = true) (hempty : s₀.outputText = [])
    (hstart : s₀.isFinished = false)
    (hrun : ReportedRun detokenize s₀ pieces (resultsOf i results) s)
    (hlast : (resultsOf i results).getLast? = some final) (hfinal : final.finished = true) :
    ∃ chunks, completionStreamGenerator request results = .ok chunks ∧
      (streamedText i chunks = final.text ↔
        StopWithinLastPiece s₀.samplingParams.stop pieces) := by
  obtain ⟨chunks, hchunks, htexts⟩ := completionStreamGenerator_of_not_echo hecho hmax results
  have hinv := streamInv_of_reportedRun hempty hstart hrun
  obtain ⟨hfinished, rfl⟩ := hinv.finished final hlast hfinal
  refine ⟨chunks, hchunks, ?_⟩
  rw [htexts i]
  exact hinv.final hfinished

/-! ### Two letters -/

/-- A tokenizer whose tokens are the letters of the alphabet. -/
def letters : Detokenizer := fun ids _ _ _ => ⟨[], [Char.ofNat (97 + ids.getLastD 0)], 0, 0⟩

/-- A sequence with one prompt token and one stop string. -/
def letterSeq (stop : Text) : Sequence := .new 0 [] [25] 1 none 0 { stop := [stop] }

/-- Its object after the prompt and some letters. -/
def afterLetters (stop : Text) (tokenIds : List TokenId) (text : Text)
    (status : SequenceStatus) : Sequence :=
  { letterSeq stop with
    promptTokensProcessed := 1
    promptProcessingFinished := true
    outputTokenIds := tokenIds
    outputText := text
    tokens := if tokenIds.isEmpty then none else some []
    logicalTokenBlocks := [25] :: tokenIds.map fun t => [t]
    status }

/-- The results of the sequence when the letters `a` and `b` are generated and the second ends
    it with the text `final`. -/
def letterResults (stop final : Text) : List (Nat × RequestOutput) :=
  [(0, .fromSeq (afterLetters stop [] [] .paused)),
    (0, .fromSeq (afterLetters stop [0] ['a'] .paused)),
    (0, .fromSeq (afterLetters stop [0, 1] final .finishedStopped))]

/-- The run behind these results. -/
theorem letterRun {stop final : Text} {s₁ s₂ s₃ : Sequence}
    (h₁ : advance (engineHooks letters) 0 1 (letterSeq stop) = .ok s₁)
    (h₂ : advance (engineHooks letters) 0 0 s₁ = .ok s₂)
    (h₃ : advance (engineHooks letters) 1 0 s₂ = .ok s₃)
    (hs₁ : s₁ = afterLetters stop [] [] .paused) (hs₂ : s₂ = afterLetters stop [0] ['a'] .paused)
    (hs₃ : s₃ = afterLetters stop [0, 1] final .finishedStopped) :
    ReportedRun letters (letterSeq stop) [['a'], ['b']] (resultsOf 0 (letterResults stop final))
      s₃ := by
  subst hs₁ hs₂ hs₃
  exact ((ReportedRun.nil.chunk (.chunk rfl rfl h₁)).token (.token rfl rfl h₂)).token
    (.token rfl rfl h₃)

/-- With the stop string `ab` the client has received `a` when the final text is empty. -/
theorem stop_spans_two_pieces :
    ReportedRun letters (letterSeq ['a', 'b']) [['a'], ['b']]
        (resultsOf 0 (letterResults ['a', 'b'] []))
        (afterLetters ['a', 'b'] [0, 1] [] .finishedStopped) ∧
      (completionStreamGenerator ⟨some 16, false, false⟩ (letterResults ['a', 'b'] [])).map
          (streamedText 0) = .ok ['a'] :=
  ⟨letterRun rfl rfl rfl rfl rfl rfl, rfl⟩

/-- The stop string `b` lies within the last piece, and the client has the final text. -/
theorem stop_within_last_piece :
    ∃ chunks, completionStreamGenerator ⟨some 16, false, false⟩ (letterResults ['b'] ['a']) =
        .ok chunks ∧ streamedText 0 chunks = ['a'] := by
  obtain ⟨chunks, hchunks, hiff⟩ := streamedText_eq_final_iff
    ⟨some 16, false, false⟩ (letterResults ['b'] ['a']) 0
    rfl rfl rfl rfl (letterRun rfl rfl rfl rfl rfl rfl) rfl rfl
  refine ⟨chunks, hchunks, hiff.mpr ?_⟩
  intro stop hstop
  cases hstop
  exact Nat.le_refl 1

end VAttention.Serving
