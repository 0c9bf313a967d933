import VAttention.Manager.Agreement

/-!
# The history of one sequence

What happens to the engine's object of a sequence, from its creation to its end, is a list of
events: chunks of the prompt, generated tokens, resets for recomputation, and the drop of an
over-long sequence.  `uninterrupted` generates from a token stream without any reset; a
history whose resets find no generated tokens ends with the same output (`SeqRun.shadows`).
-/

namespace VAttention.Manager

open VAttention.Core VAttention.Lib

/-- What can happen to the object of a sequence. -/
inductive SeqEvent where
  /-- `reset_for_recompute`, with the generated tokens that it makes part of the prompt. -/
  | reset (folded : List TokenId)
  | chunk (len : Int)
  | token (t : TokenId)
  /-- The length check of a waiting sequence fails. -/
  | drop
  deriving DecidableEq

/-- The token that an event generates. -/
def SeqEvent.tokens : SeqEvent → List TokenId
  | token t => [t]
  | reset _ | chunk _ | drop => []

/-- The tokens that an event makes part of the prompt. -/
def SeqEvent.folded : SeqEvent → List TokenId
  | reset folded => folded
  | chunk _ | token _ | drop => []

/-- All tokens generated in a history. -/
def generated (log : List SeqEvent) : List TokenId := log.flatMap SeqEvent.tokens

/-- All tokens made part of the prompt in a history. -/
def foldedTokens (log : List SeqEvent) : List TokenId := log.flatMap SeqEvent.folded

/-- The effect of an event on the object. -/
inductive SeqMove {μ : Type} (hooks : ManagerHooks μ) : Sequence → SeqEvent → Sequence → Prop where
  | reset {s : Sequence} (hs : s.isFinished = false) :
      SeqMove hooks s (.reset s.outputTokenIds) (recomputed s)
  | chunk {s s' : Sequence} {t : TokenId} {len : Int} (hs : s.isFinished = false)
      (hprompt : s.promptProcessingFinished = false) (h : advance hooks t len s = .ok s') :
      SeqMove hooks s (.chunk len) s'
  | token {s s' : Sequence} {t : TokenId} {len : Int} (hs : s.isFinished = false)
      (hprompt : s.promptProcessingFinished = true) (h : advance hooks t len s = .ok s') :
      SeqMove hooks s (.token t) s'
  | drop {s : Sequence} (hs : s.status = .waiting) :
      SeqMove hooks s .drop { s with status := .finishedIgnored }

/-- A history that starts with object `s₀`. -/
inductive SeqRun {μ : Type} (hooks : ManagerHooks μ) (s₀ : Sequence) :
    List SeqEvent → Sequence → Prop where
  | nil : SeqRun hooks s₀ [] s₀
  | snoc {log : List SeqEvent} {s s' : Sequence} {ev : SeqEvent} (h : SeqRun hooks s₀ log s)
      (hmove : SeqMove hooks s ev s') : SeqRun hooks s₀ (log ++ [ev]) s'

theorem SeqRun.trans {μ : Type} {hooks : ManagerHooks μ} {s₀ s s' : Sequence}
    {log log' : List SeqEvent} (h : SeqRun hooks s₀ log s) (h' : SeqRun hooks s log' s') :
    SeqRun hooks s₀ (log ++ log') s' := by
  induction h' with
  | nil => rwa [List.append_nil]
  | snoc _ hmove ih =>
    rw [← List.append_assoc]
    exact ih.snoc hmove

theorem SeqRun.eq_of_nil {μ : Type} {hooks : ManagerHooks μ} {s₀ s : Sequence}
    (h : SeqRun hooks s₀ [] s) : s = s₀ := by
  generalize hlog : ([] : List SeqEvent) = log at h
  cases h with
  | nil => rfl
  | snoc => simp at hlog

/-- The first event of a history. -/
theorem SeqRun.of_cons {μ : Type} {hooks : ManagerHooks μ} {s₀ s : Sequence} {ev : SeqEvent}
    {log : List SeqEvent} (h : SeqRun hooks s₀ (ev :: log) s) :
    ∃ s₁, SeqMove hooks s₀ ev s₁ ∧ SeqRun hooks s₁ log s := by
  generalize hlog : ev :: log = full at h
  induction h generalizing log with
  | nil => cases hlog
  | @snoc full s s' last hrun hmove ih =>
    cases full with
    | nil =>
      cases hlog
      rw [hrun.eq_of_nil] at hmove
      exact ⟨_, hmove, .nil⟩
    | cons a rest =>
      cases hlog
      obtain ⟨s₁, hfirst, hrest⟩ := ih rfl
      exact ⟨s₁, hfirst, hrest.snoc hmove⟩

/-- The only event of a history of one event. -/
theorem SeqRun.move_of_singleton {μ : Type} {hooks : ManagerHooks μ} {s₀ s : Sequence}
    {ev : SeqEvent} (h : SeqRun hooks s₀ [ev] s) : SeqMove hooks s₀ ev s := by
  obtain ⟨s₁, hmove, hrest⟩ := h.of_cons
  rwa [hrest.eq_of_nil]

/-- An object that advances moves by one event. -/
theorem SeqMove.of_advance {μ : Type} {hooks : ManagerHooks μ} {s s' : Sequence} {t : TokenId}
    {len : Int} (hs : s.isFinished = false) (h : advance hooks t len s = .ok s') :
    SeqMove hooks s (if s.promptProcessingFinished then .token t else .chunk len) s' := by
  split_ifs with hprompt
  · exact .token hs hprompt h
  · exact .chunk hs (by simpa using hprompt) h

/-- A sequence as `add_request` creates it. -/
structure Fresh (s : Sequence) : Prop where
  regular : Regular s
  outputs : s.outputTokenIds = []
  unfinished : s.isFinished = false

/-! ## Bookkeeping -/

section Bookkeeping

variable {μ : Type} {hooks : ManagerHooks μ} {s₀ s s' : Sequence} {log : List SeqEvent}
  {ev : SeqEvent}

/-- What a history keeps track of: the prompt grows by the folded tokens, and the generated
    tokens are the folded ones and the current output. -/
structure HistoryInv (s₀ : Sequence) (log : List SeqEvent) (s : Sequence) : Prop where
  params : s.samplingParams = s₀.samplingParams
  prompt : s.promptTokenIds = s₀.promptTokenIds ++ foldedTokens log
  outputs : generated log = foldedTokens log ++ s.outputTokenIds
  waiting : s.status = .waiting → s.outputTokenIds = []
  regular : s.isFinished = false → Regular s
  output_le : s.outputTokenIds.length ≤ s.samplingParams.maxTokens

theorem generated_snoc (log : List SeqEvent) (ev : SeqEvent) :
    generated (log ++ [ev]) = generated log ++ ev.tokens := by
  simp [generated]

theorem foldedTokens_append (log log' : List SeqEvent) :
    foldedTokens (log ++ log') = foldedTokens log ++ foldedTokens log' :=
  List.flatMap_append

theorem foldedTokens_snoc (log : List SeqEvent) (ev : SeqEvent) :
    foldedTokens (log ++ [ev]) = foldedTokens log ++ ev.folded := by
  simp [foldedTokens]

/-- The output of an object that advances: unchanged, or longer by the token. -/
theorem advance_outputs (htext : TextOnly hooks) {t : TokenId} {len : Int}
    (h : advance hooks t len s = .ok s') :
    s'.outputTokenIds =
      if s.promptProcessingFinished then s.outputTokenIds ++ [t] else s.outputTokenIds := by
  rcases advance_eq_ok h with ⟨hprompt, -, -, rfl⟩ | ⟨hprompt, hstop⟩
  · rw [if_neg (by simp [hprompt])]
  · obtain ⟨-, -, text, status, rfl⟩ := checkStop_spec (decoded_isFinished htext) hstop
    rw [if_pos hprompt]
    exact congrArg Sequence.outputTokenIds (core_decoded htext (s := s) (t := t))

/-- An object that advances does not wait. -/
theorem advance_not_waiting (htext : TextOnly hooks) {t : TokenId} {len : Int}
    (h : advance hooks t len s = .ok s') : s'.status ≠ .waiting := by
  rcases advance_eq_ok h with ⟨-, -, -, rfl⟩ | ⟨-, hstop⟩
  · simp
  · obtain ⟨-, hsame, -⟩ := checkStop_spec (decoded_isFinished htext) hstop
    intro hwaiting
    have hunfinished : s'.isFinished = false := by
      simp [Sequence.isFinished, hwaiting, SequenceStatus.isFinished]
    -- a sequence that goes on is as `check_stop` saw it: paused
    rw [hsame hunfinished] at hwaiting
    have hpaused : (decoded hooks t s).status = .paused :=
      congrArg Sequence.status (core_decoded htext (s := s) (t := t))
    rw [hpaused] at hwaiting
    cases hwaiting

theorem HistoryInv.move (htext : TextOnly hooks) (h : HistoryInv s₀ log s)
    (hmove : SeqMove hooks s ev s') : HistoryInv s₀ (log ++ [ev]) s' := by
  cases hmove with
  | reset hs =>
    constructor
    case params => exact h.params
    case prompt =>
      rw [foldedTokens_snoc, ← List.append_assoc, ← h.prompt]
      rfl
    case outputs =>
      rw [generated_snoc, foldedTokens_snoc, h.outputs]
      simp [SeqEvent.tokens, SeqEvent.folded, recomputed]
    case waiting => exact fun _ => rfl
    case regular => exact fun _ => regular_recomputed s
    case output_le => exact Nat.zero_le _
  | chunk hs hprompt hadvance =>
    obtain ⟨-, hids, hparams⟩ := advance_keeps htext hadvance
    have hout := advance_outputs htext hadvance
    rw [hprompt] at hout
    simp only [Bool.false_eq_true, if_false] at hout
    constructor
    case params => rw [hparams, h.params]
    case prompt => rw [hids, h.prompt, foldedTokens_snoc, SeqEvent.folded, List.append_nil]
    case outputs =>
      rw [generated_snoc, foldedTokens_snoc, h.outputs, hout]
      simp [SeqEvent.tokens, SeqEvent.folded]
    case waiting => exact fun hw => absurd hw (advance_not_waiting htext hadvance)
    case regular => exact fun hnot => (advance_regular htext (h.regular hs) hadvance hnot).1
    case output_le => rw [hout, hparams]; exact h.output_le
  | token hs hprompt hadvance =>
    obtain ⟨-, hids, hparams⟩ := advance_keeps htext hadvance
    have hout := advance_outputs htext hadvance
    rw [hprompt] at hout
    simp only [if_true] at hout
    constructor
    case params => rw [hparams, h.params]
    case prompt => rw [hids, h.prompt, foldedTokens_snoc, SeqEvent.folded, List.append_nil]
    case outputs =>
      rw [generated_snoc, foldedTokens_snoc, h.outputs, hout]
      simp [SeqEvent.tokens, SeqEvent.folded]
    case waiting => exact fun hw => absurd hw (advance_not_waiting htext hadvance)
    case regular => exact fun hnot => (advance_regular htext (h.regular hs) hadvance hnot).1
    case output_le =>
      have hlt := (h.regular hs).output_lt
      rw [hout, hparams, List.length_append, List.length_singleton]
      exact hlt
  | drop hs =>
    constructor
    case params => exact h.params
    case prompt => rw [foldedTokens_snoc, SeqEvent.folded, List.append_nil]; exact h.prompt
    case outputs =>
      rw [generated_snoc, foldedTokens_snoc, h.outputs]
      simp [SeqEvent.tokens, SeqEvent.folded]
    case waiting => intro hw; cases hw
    case regular => intro hnot; cases hnot
    case output_le => exact h.output_le

theorem SeqRun.historyInv (htext : TextOnly hooks) (hfresh : Fresh s₀)
    (h : SeqRun hooks s₀ log s) : HistoryInv s₀ log s := by
  induction h with
  | nil =>
    constructor
    case params => rfl
    case prompt => simp [foldedTokens]
    case outputs => simp [generated, foldedTokens, hfresh.outputs]
    case waiting => exact fun _ => hfresh.outputs
    case regular => exact fun _ => hfresh.regular
    case output_le => simp [hfresh.outputs]
  | snoc _ hmove ih => exact ih.move htext hmove

end Bookkeeping

/-! ## Generation without interruption -/

/-- Generate from a list of tokens, one after another; nothing follows the end of a sequence. -/
def uninterrupted {μ : Type} (hooks : ManagerHooks μ) :
    List TokenId → Sequence → Except PyError Sequence
  | [], s => .ok s
  | t :: ts, s => do
    assertThat (!s.isFinished) (.assertionError "not seq.is_finished()")
    let s ← (decoded hooks t s).checkStop
    uninterrupted hooks ts s

theorem uninterrupted_append {μ : Type} {hooks : ManagerHooks μ} {ts us : List TokenId}
    {s s' : Sequence} :
    uninterrupted hooks (ts ++ us) s = .ok s' ↔
      ∃ g, uninterrupted hooks ts s = .ok g ∧ uninterrupted hooks us g = .ok s' := by
  induction ts generalizing s with
  | nil => simp [uninterrupted]
  | cons t ts ih =>
    simp only [List.cons_append, uninterrupted, seq_eq_ok, ih]
    constructor
    · rintro ⟨u, hu, s₁, h₁, g, hg, hrest⟩
      exact ⟨g, ⟨u, hu, s₁, h₁, hg⟩, hrest⟩
    · rintro ⟨g, ⟨u, hu, s₁, h₁, hg⟩, hrest⟩
      exact ⟨u, hu, s₁, h₁, g, hg, hrest⟩

/-- Two finished generations from token lists that agree as far as both go are the same. -/
theorem uninterrupted_unique {μ : Type} {hooks : ManagerHooks μ} {ts us : List TokenId}
    {s g g' : Sequence} (hts : uninterrupted hooks ts s = .ok g)
    (hus : uninterrupted hooks us s = .ok g') (hfinished : g.isFinished = true)
    (hagree : ts <+: us) : ts = us ∧ g = g' := by
  obtain ⟨rest, rfl⟩ := hagree
  obtain ⟨g₁, hg₁, hrest⟩ := uninterrupted_append.mp hus
  obtain rfl : g = g₁ := Except.ok.inj (hts.symm.trans hg₁)
  cases rest with
  | nil =>
    cases hrest
    exact ⟨(List.append_nil ts).symm, rfl⟩
  | cons t rest =>
    -- a finished sequence takes no further token
    obtain ⟨⟨⟩, hnot, -⟩ := seq_eq_ok.mp hrest
    simp [hfinished] at hnot

/-! ## Histories whose resets change nothing -/

/-- The object with another progress of its prompt. -/
def withProgress (processed : Nat) (finished : Bool) (s : Sequence) : Sequence :=
  { s with promptTokensProcessed := processed, promptProcessingFinished := finished }

/-- `g` is `s` up to the progress of the prompt, and up to the status while it goes on. -/
structure Shadows (s g : Sequence) : Prop where
  fields : g = withProgress g.promptTokensProcessed g.promptProcessingFinished
    { s with status := g.status }
  finished : s.isFinished = g.isFinished
  status : s.isFinished = true → s.status = g.status

section Shadows

variable {detokenize : Detokenizer} {s₀ s s' g : Sequence} {log : List SeqEvent} {ev : SeqEvent}

theorem setStatus_withProgress (d : Sequence) (status : SequenceStatus) (processed : Nat)
    (finished : Bool) :
    (withProgress processed finished d).setStatus status =
      (d.setStatus status).map (withProgress processed finished) := by
  unfold Sequence.setStatus withProgress
  split_ifs <;> rfl

/-- `check_stop` does not look at the progress of the prompt. -/
theorem checkStop_withProgress (d : Sequence) (processed : Nat) (finished : Bool) :
    (withProgress processed finished d).checkStop =
      d.checkStop.map (withProgress processed finished) := by
  have hset (d : Sequence) (status : SequenceStatus) :=
    setStatus_withProgress d status processed finished
  cases hfind : d.samplingParams.stop.find? fun stop => stop.isSuffixOf d.outputText with
  | some stop =>
    unfold Sequence.checkStop
    rw [hfind, show ((withProgress processed finished d).samplingParams.stop.find? fun stop =>
      stop.isSuffixOf (withProgress processed finished d).outputText) = some stop from hfind]
    exact hset { d with outputText := Sequence.truncateStop d.outputText stop } _
  | none =>
    unfold Sequence.checkStop
    rw [hfind, show ((withProgress processed finished d).samplingParams.stop.find? fun stop =>
      stop.isSuffixOf (withProgress processed finished d).outputText) = none from hfind]
    dsimp only
    -- the same three questions on both sides, with the same answers
    by_cases hlimit : d.getOutputLen = d.samplingParams.maxTokens
    · rw [if_pos hlimit, if_pos (by exact hlimit)]
      exact hset d _
    rw [if_neg hlimit, if_neg (by exact hlimit)]
    by_cases heos : d.samplingParams.ignoreEos = true
    · rw [if_pos heos, if_pos (by exact heos)]
      rfl
    rw [if_neg heos, if_neg (by exact heos),
      show (withProgress processed finished d).getLastTokenId = d.getLastTokenId from rfl]
    cases d.getLastTokenId with
    | error err => rfl
    | ok last =>
      simp only [Bind.bind, Except.bind]
      by_cases hlast : some last = d.eosTokenId
      · rw [if_pos hlast, if_pos (by exact hlast)]
        exact hset d _
      · rw [if_neg hlast, if_neg (by exact hlast)]
        rfl

/-- A move that folds no tokens is followed by its shadow. -/
theorem Shadows.move (hshadow : Shadows s g) (hfolded : ev.folded = []) (hdrop : ev ≠ .drop)
    (hmove : SeqMove (engineHooks detokenize) s ev s') :
    ∃ g', uninterrupted (engineHooks detokenize) ev.tokens g = .ok g' ∧ Shadows s' g' := by
  cases hmove with
  | reset hs =>
    -- the reset moved no output into the prompt, so only the progress is lost
    refine ⟨g, rfl, ?_, ?_, ?_⟩
    · have houtputs : s.outputTokenIds = [] := hfolded
      rw [hshadow.fields]
      simp [recomputed, houtputs, withProgress]
    · rw [← hshadow.finished, hs]
      rfl
    · intro hfin
      cases hfin
  | chunk hs hprompt hadvance =>
    rcases advance_eq_ok hadvance with ⟨-, -, -, rfl⟩ | ⟨hfinished, -⟩
    · refine ⟨g, rfl, ?_, ?_, ?_⟩
      · exact hshadow.fields
      · rw [← hshadow.finished, hs]
        rfl
      · intro hfin
        cases hfin
    · rw [hprompt] at hfinished
      cases hfinished
  | @token _ t _ hs hprompt hadvance =>
    rw [advance_of_finished hprompt] at hadvance
    -- `check_stop` sees the same tokens and text on both sides
    have hdecoded : decoded (engineHooks detokenize) t g =
        withProgress g.promptTokensProcessed g.promptProcessingFinished
          (decoded (engineHooks detokenize) t s) := by
      rw [hshadow.fields]
      rfl
    refine ⟨withProgress g.promptTokensProcessed g.promptProcessingFinished s', ?_, rfl, rfl,
      fun _ => rfl⟩
    simp only [SeqEvent.tokens, uninterrupted, seq_eq_ok]
    refine ⟨(), by simp [← hshadow.finished, hs], _, ?_, rfl⟩
    rw [hdecoded, checkStop_withProgress, hadvance]
    rfl
  | drop => exact absurd rfl hdrop

/-- **A history that folds no tokens generates without interruption.**  A dropped sequence has
    generated nothing. -/
theorem SeqRun.shadows (h : SeqRun (engineHooks detokenize) s₀ log s)
    (hfolded : ∀ ev ∈ log, SeqEvent.folded ev = []) (hdrop : .drop ∉ log) :
    ∃ g, uninterrupted (engineHooks detokenize) (generated log) s₀ = .ok g ∧ Shadows s g := by
  induction h with
  | nil => exact ⟨s₀, rfl, rfl, rfl, fun _ => rfl⟩
  | @snoc log s s' ev hrun hmove ih =>
    rw [List.forall_mem_append] at hfolded
    rw [List.mem_append, not_or, List.mem_singleton] at hdrop
    obtain ⟨g, hg, hshadow⟩ := ih hfolded.1 hdrop.1
    obtain ⟨g', hg', hshadow'⟩ := hshadow.move
      (hfolded.2 ev (List.mem_singleton_self ev)) (Ne.symm hdrop.2) hmove
    refine ⟨g', ?_, hshadow'⟩
    rw [generated_snoc]
    exact uninterrupted_append.mpr ⟨g, hg, hg'⟩

theorem Shadows.fromSeq_eq (h : Shadows s g) (hfinished : s.isFinished = true) :
    RequestOutput.fromSeq s = RequestOutput.fromSeq g := by
  have hstatus := h.status hfinished
  rw [h.fields]
  simp [RequestOutput.fromSeq, Sequence.isFinished, hstatus, withProgress]

end Shadows

end VAttention.Manager
