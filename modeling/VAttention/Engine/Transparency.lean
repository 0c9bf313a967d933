import VAttention.Engine.Preemption
import VAttention.Manager.History

/-!
# What a client sees of preemption

A sequence that is evicted is reset for recomputation, and its generated tokens become part of
its prompt: the output of the request loses them, and the limit on generated tokens counts
anew.  The client sees the output of an uninterrupted run exactly if every reset finds no
generated tokens.
-/

namespace VAttention.Engine

open VAttention.Core VAttention.Lib VAttention.Scheduler VAttention.Manager VAttention.Worker

variable {β γ : Type} [BlockSpaceManager β] [CacheEngine γ] {cfg : EngineConfig}
  {req : Request} {inp : StepInput} {e e₁ e' : BaseLLMEngine β γ} {out : SchedulerOutputs}
  {queue : List SeqId} {log : List SeqEvent}

/-! ## The events of a step -/

/-- What being in the batch does to the engine's object of a sequence. -/
def entryLog (objs : Heap) (inp : StepInput) (out : SchedulerOutputs) (id : SeqId) :
    List SeqEvent :=
  match out.scheduledSeqMetadataList.find? fun m => m.seqId == id with
  | none => []
  | some m =>
    [if (entering out id (objs id)).promptProcessingFinished then .token (inp.sampled id)
      else .chunk m.promptChunkLen]

/-- What a step with outcome `out` does to the engine's object of a sequence. -/
def roundLog (objs : Heap) (inp : StepInput) (out : SchedulerOutputs) (id : SeqId) :
    List SeqEvent :=
  if id ∈ out.ignoredSeqIds then [.drop]
  else if out.isEmpty then []
  else if id ∈ out.preemptedSeqIds then
    .reset (objs id).outputTokenIds :: entryLog objs inp out id
  else entryLog objs inp out id

omit [BlockSpaceManager β] [CacheEngine γ] in
/-- A sequence that the scheduler has is not finished. -/
theorem EngineInv.unfinished (h : EngineInv e) {id : SeqId}
    (hid : id ∈ e.scheduler.waiting ++ e.scheduler.running) :
    (e.replica.objs id).isFinished = false := by
  rcases List.mem_append.mp hid with hwaiting | hrunning
  · rcases h.waiting id hwaiting with hstatus | hstatus <;>
      simp [Sequence.isFinished, hstatus, SequenceStatus.isFinished]
  · simp [Sequence.isFinished, h.running id hrunning, SequenceStatus.isFinished]

omit [CacheEngine γ] in
/-- Being in the batch moves the object, which the same step may have reset, by one event. -/
theorem ExecuteView.entry_run {id : SeqId} {s : Sequence} (hview : ExecuteView cfg inp out e₁ e')
    (hobjs : e₁.replica.objs id = e.replica.objs id)
    (hs : s = if id ∈ out.preemptedSeqIds then recomputed (e.replica.objs id)
      else e.replica.objs id)
    (hignored : id ∉ out.ignoredSeqIds) (hunfinished : id ∈ out.batchIds → s.isFinished = false) :
    SeqRun (engineHooks cfg.detokenize) s (entryLog e.replica.objs inp out id)
      (e'.replica.objs id) := by
  have hentering : entering out id (e.replica.objs id) = { s with status := .running } := by
    rw [hs]
    rfl
  unfold entryLog
  rw [hentering]
  cases hfind : out.scheduledSeqMetadataList.find? fun m => m.seqId == id with
  | none =>
    have hbatch : id ∉ out.batchIds := by
      simpa [scheduledIds] using hfind
    have hobj : e'.replica.objs id = s := by
      rw [hs, ← hobjs]
      split_ifs with hpre
      · exact congrArg Prod.fst (hview.engine.preempted id hpre hbatch).2
      · exact congrArg Prod.fst (hview.engine.frame id hignored hpre hbatch)
    rw [hobj]
    exact .nil
  | some m =>
    obtain rfl : m.seqId = id := by simpa using List.find?_some hfind
    have hm := List.mem_of_find?_eq_some hfind
    obtain ⟨-, s', hadvance, hself⟩ := hview.engine.batch m hm
    have hobj : e'.replica.objs m.seqId = s' := congrArg Prod.fst hself
    have hsame : (e₁.replica.view m.seqId).1 = e.replica.objs m.seqId := hobjs
    rw [hsame, hentering] at hadvance
    rw [hobj]
    -- the status of a running sequence is overwritten at once
    exact SeqRun.nil.snoc
      (SeqMove.of_advance (s := s) (hunfinished (List.mem_map_of_mem hm)) hadvance)

/-- The log of a step describes what the step does to the object. -/
theorem EngineInv.round_run (h : EngineInv e)
    (hschedule : e.scheduleStep cfg inp = .ok (e₁, out, queue))
    (hfinishes : Finishes cfg inp out e₁ e') (id : SeqId) :
    SeqRun (engineHooks cfg.detokenize) (e.replica.objs id)
      (roundLog e.replica.objs inp out id) (e'.replica.objs id) := by
  have hspec := BaseLLMEngine.scheduleStep_spec h.nodup hschedule
  unfold roundLog
  split_ifs with hignored hempty hpre
  · -- dropped: the object is not touched again
    obtain ⟨hstatus, -, -, hobjs⟩ := hspec.ignored id hignored
    have hsame : e'.replica.objs id = e₁.replica.objs id := by
      rcases hfinishes with ⟨-, rfl⟩ | ⟨-, hview⟩
      · rfl
      · exact congrArg Prod.fst (hview.engine.ignored id hignored).2
    rw [hsame, hobjs]
    exact SeqRun.nil.snoc (.drop hstatus)
  -- an empty batch: nothing is executed
  · obtain rfl : e' = e₁ := by
      rcases hfinishes with ⟨-, rfl⟩ | ⟨hnot, -⟩
      · rfl
      · simp [hempty] at hnot
    rw [hspec.objs_eq id hignored]
    exact .nil
  all_goals
    obtain ⟨-, hview⟩ := hfinishes.resolve_left fun hcase => hempty hcase.1
    have hobjs := hspec.objs_eq id hignored
  · -- evicted: reset, and possibly scheduled again
    have hs := h.unfinished (List.mem_append_right _ (hspec.preempted id hpre).1)
    have hreset : SeqRun (engineHooks cfg.detokenize) (e.replica.objs id)
        [.reset (e.replica.objs id).outputTokenIds] (recomputed (e.replica.objs id)) :=
      SeqRun.nil.snoc (.reset hs)
    exact hreset.trans (hview.entry_run hobjs (if_pos hpre).symm hignored fun _ => rfl)
  · refine hview.entry_run hobjs (if_neg hpre).symm hignored fun hbatch => ?_
    obtain ⟨hold, -, -⟩ := hspec.objs_of_mem h.nodup
      (List.mem_append_right _ (hspec.batch_running _ hbatch))
    exact h.unfinished hold

/-- Only the scheduler's length check drops. -/
theorem drop_mem_roundLog {objs : Heap} {id : SeqId} (h : .drop ∈ roundLog objs inp out id) :
    id ∈ out.ignoredSeqIds := by
  have hentry : .drop ∉ entryLog objs inp out id := by
    unfold entryLog
    split
    · simp
    · split_ifs <;> simp
  unfold roundLog at h
  split_ifs at h with hignored hempty hpre
  · exact hignored
  · cases h
  · simp [hentry] at h
  · exact absurd h hentry

/-- A step does nothing to a sequence that it neither drops nor evicts nor schedules. -/
theorem roundLog_eq_nil {objs : Heap} {id : SeqId} (hignored : id ∉ out.ignoredSeqIds)
    (hpre : id ∉ out.preemptedSeqIds) (hbatch : id ∉ out.batchIds) :
    roundLog objs inp out id = [] := by
  have hfind : (out.scheduledSeqMetadataList.find? fun m => m.seqId == id) = none := by
    simpa [scheduledIds] using hbatch
  simp [roundLog, entryLog, hignored, hpre, hfind]

/-! ## The history of a request -/

/-- The histories of a request: it is added to some reachable state of the engine, and `log`
    is what the following calls have done to its sequence. -/
inductive SeqTrace (cfg : EngineConfig) (req : Request) :
    BaseLLMEngine β γ → List SeqEvent → Prop where
  | added {e e' : BaseLLMEngine β γ} (hreach : ReachesFrom cfg IsStart (fun _ _ => True) e)
      (hexec : e.exec cfg (.addRequest req) = .ok e') : SeqTrace cfg req e' []
  | other {e e' : BaseLLMEngine β γ} {log : List SeqEvent} {req' : Request}
      (h : SeqTrace cfg req e log) (hne : req'.seqId ≠ req.seqId)
      (hexec : e.exec cfg (.addRequest req') = .ok e') : SeqTrace cfg req e' log
  | step {e e₁ e' : BaseLLMEngine β γ} {log : List SeqEvent} {inp : StepInput}
      {out : SchedulerOutputs} {queue : List SeqId} (h : SeqTrace cfg req e log)
      (hschedule : e.scheduleStep cfg inp = .ok (e₁, out, queue))
      (hexec : e.exec cfg (.step inp) = .ok e') :
      SeqTrace cfg req e' (log ++ roundLog e.replica.objs inp out req.seqId)

/-- The states of a sequence whose prompt exceeds `max_model_len`: it waits, or is dropped. -/
def NeverAdmitted (s₀ : Sequence) (log : List SeqEvent) (s : Sequence) : Prop :=
  s = s₀ ∧ log = [] ∨ s = { s₀ with status := .finishedIgnored } ∧ log = [.drop]

/-- Invariant of the histories of a request. -/
structure TraceInv (cfg : EngineConfig) (req : Request) (e : BaseLLMEngine β γ)
    (log : List SeqEvent) : Prop where
  engine : EngineInv e
  history : SeqRun (engineHooks cfg.detokenize) (req.toSequence cfg) log (e.replica.objs req.seqId)
  overlong : cfg.scheduler.maxModelLen < req.promptTokenIds.length →
    req.seqId ∉ e.scheduler.running ∧
      NeverAdmitted (req.toSequence cfg) log (e.replica.objs req.seqId)
  dropped : .drop ∈ log →
    cfg.scheduler.maxModelLen < (req.promptTokenIds ++ foldedTokens log).length

theorem fresh_toSequence (cfg : EngineConfig) (req : Request) : Fresh (req.toSequence cfg) :=
  ⟨regular_toSequence cfg req, rfl, rfl⟩

omit [BlockSpaceManager β] [CacheEngine γ] in
theorem TraceInv.historyInv (h : TraceInv cfg req e log) :
    HistoryInv (req.toSequence cfg) log (e.replica.objs req.seqId) :=
  h.history.historyInv (engineHooks_textOnly cfg.detokenize) (fresh_toSequence cfg req)

/-- An over-long sequence is at most dropped. -/
theorem TraceInv.overlong_step (h : TraceInv cfg req e log)
    (hschedule : e.scheduleStep cfg inp = .ok (e₁, out, queue))
    (hfinishes : Finishes cfg inp out e₁ e')
    (hlong : cfg.scheduler.maxModelLen < req.promptTokenIds.length) :
    req.seqId ∉ e'.scheduler.running ∧
      NeverAdmitted (req.toSequence cfg) (log ++ roundLog e.replica.objs inp out req.seqId)
        (e'.replica.objs req.seqId) := by
  have hspec := BaseLLMEngine.scheduleStep_spec h.engine.nodup hschedule
  obtain ⟨hrunning, hnever⟩ := h.overlong hlong
  -- it has never run, so it is neither evicted nor scheduled
  have hpre : req.seqId ∉ out.preemptedSeqIds := fun hpre => hrunning (hspec.preempted _ hpre).1
  have hbatch : req.seqId ∉ out.batchIds := by
    intro hbatch
    obtain ⟨m, hm, hid⟩ := List.mem_map.mp hbatch
    rcases hspec.admitted m hm with ⟨hold, -⟩ | hfits
    · exact hrunning (hid ▸ hold)
    · -- the length that the scheduler checks is at least that of the prompt
      have hlen : req.promptTokenIds.length ≤ (e.replica.objs req.seqId).getLen := by
        rcases hnever with ⟨hobjs, -⟩ | ⟨hobjs, -⟩ <;> rw [hobjs] <;>
          exact Nat.le_add_left _ _
      rw [hid] at hfits
      omega
  constructor
  · intro hnew
    obtain ⟨-, ⟨hold, -⟩ | ⟨m, hm, hid, -⟩⟩ := h.engine.running_cases hschedule hfinishes hnew
    · exact hrunning hold
    · exact hbatch (hid ▸ List.mem_map_of_mem hm)
  have hround := h.engine.round_run hschedule hfinishes req.seqId
  -- what is left is the drop, and that happens once
  by_cases hignored : req.seqId ∈ out.ignoredSeqIds
  · obtain ⟨hstatus, -⟩ := hspec.ignored _ hignored
    rcases hnever with ⟨hobjs, rfl⟩ | ⟨hobjs, -⟩
    · have hlog : roundLog e.replica.objs inp out req.seqId = [.drop] := if_pos hignored
      rw [hlog, hobjs] at hround
      rw [hlog]
      refine .inr ⟨?_, rfl⟩
      generalize e'.replica.objs req.seqId = s' at hround ⊢
      cases hround.move_of_singleton with
      | drop => rfl
    · rw [hobjs] at hstatus
      cases hstatus
  · rw [roundLog_eq_nil hignored hpre hbatch] at hround ⊢
    rwa [List.append_nil, hround.eq_of_nil]

/-- A sequence is dropped at a length that exceeds `max_model_len`. -/
theorem TraceInv.dropped_step (h : TraceInv cfg req e log)
    (hschedule : e.scheduleStep cfg inp = .ok (e₁, out, queue))
    (hdrop : .drop ∈ log ++ roundLog e.replica.objs inp out req.seqId) :
    cfg.scheduler.maxModelLen < (req.promptTokenIds ++
      foldedTokens (log ++ roundLog e.replica.objs inp out req.seqId)).length := by
  have hlong : cfg.scheduler.maxModelLen < (req.promptTokenIds ++ foldedTokens log).length := by
    rcases List.mem_append.mp hdrop with hold | hnew
    · exact h.dropped hold
    · have hspec := BaseLLMEngine.scheduleStep_spec h.engine.nodup hschedule
      obtain ⟨hstatus, -, hlen, -⟩ := hspec.ignored _ (drop_mem_roundLog hnew)
      have hhistory := h.historyInv
      -- a waiting sequence has no output
      rw [Sequence.getLen, hhistory.waiting hstatus, hhistory.prompt, List.length_nil,
        Nat.zero_add] at hlen
      exact hlen
  rw [foldedTokens_append, ← List.append_assoc, List.length_append]
  exact Nat.lt_add_right _ hlong

theorem SeqTrace.traceInv {e : BaseLLMEngine β γ} {log : List SeqEvent}
    (h : SeqTrace cfg req e log) : TraceInv cfg req e log := by
  induction h with
  | @added e e' hreach hexec =>
    have hinv := engineInv_of_reaches (fun _ hstart => hstart) hreach
    have hadd := addRequest_view hexec
    constructor
    case engine => exact hinv.exec hexec
    case history => rw [hadd.objs_self]; exact .nil
    case overlong =>
      intro _
      refine ⟨fun hrunning => ?_, .inl ⟨hadd.objs_self, rfl⟩⟩
      rw [hadd.scheduler] at hrunning
      exact hinv.ne_of_mem hadd (List.mem_append_right _ hrunning) rfl
    case dropped => intro hdrop; cases hdrop
  | @other e e' log req' _ hne hexec ih =>
    have hadd := addRequest_view hexec
    have hobjs := hadd.of_ne hne.symm
    constructor
    case engine => exact ih.engine.exec hexec
    case history => rw [hobjs]; exact ih.history
    case overlong => rw [hobjs, hadd.scheduler]; exact ih.overlong
    case dropped => exact ih.dropped
  | step _ hschedule hexec ih =>
    obtain ⟨e₂, out', queue', hschedule', hfinishes⟩ := ih.engine.exec_step hexec
    cases hschedule.symm.trans hschedule'
    constructor
    case engine => exact ih.engine.exec hexec
    case history => exact ih.history.trans (ih.engine.round_run hschedule hfinishes _)
    case overlong => exact ih.overlong_step hschedule hfinishes
    case dropped => exact ih.dropped_step hschedule

/-! ## Transparency -/

/-- What the client gets for a request does not show that its sequence has been evicted: the
    output is that of a run without evictions, with at most `max_tokens` generated tokens,
    all of them in the output, after the original prompt. -/
structure Transparent (req : Request) (log : List SeqEvent) (s s' : Sequence) : Prop where
  output : RequestOutput.fromSeq s = RequestOutput.fromSeq s'
  limit : (generated log).length ≤ req.samplingParams.maxTokens
  tokens : (RequestOutput.fromSeq s).tokenIds = generated log
  prompt : (RequestOutput.fromSeq s).promptTokenIds = req.promptTokenIds

omit [BlockSpaceManager β] [CacheEngine γ] in
/-- The output of a request whose resets find no generated tokens. -/
theorem TraceInv.fromSeq_eq {δ ζ : Type} {e₂ : BaseLLMEngine δ ζ} {log₂ : List SeqEvent}
    (h : TraceInv cfg req e log) (h₂ : TraceInv cfg req e₂ log₂)
    (hfinished : (e.replica.objs req.seqId).isFinished = true)
    (hfinished₂ : (e₂.replica.objs req.seqId).isFinished = true)
    (hagree : generated log <+: generated log₂)
    (hfolded : ∀ ev ∈ log, SeqEvent.folded ev = [])
    (hfolded₂ : ∀ ev ∈ log₂, SeqEvent.folded ev = []) :
    RequestOutput.fromSeq (e.replica.objs req.seqId) =
      RequestOutput.fromSeq (e₂.replica.objs req.seqId) := by
  by_cases hlong : cfg.scheduler.maxModelLen < req.promptTokenIds.length
  · -- both have been dropped
    rcases (h.overlong hlong).2 with ⟨hobjs, -⟩ | ⟨hobjs, -⟩
    · rw [hobjs] at hfinished
      cases hfinished
    rcases (h₂.overlong hlong).2 with ⟨hobjs₂, -⟩ | ⟨hobjs₂, -⟩
    · rw [hobjs₂] at hfinished₂
      cases hfinished₂
    rw [hobjs, hobjs₂]
  · -- neither has been dropped: both follow the same uninterrupted generation
    have hnot {log : List SeqEvent} (hfolded : ∀ ev ∈ log, SeqEvent.folded ev = [])
        (hdropped : .drop ∈ log →
          cfg.scheduler.maxModelLen < (req.promptTokenIds ++ foldedTokens log).length) :
        .drop ∉ log := by
      intro hdrop
      have hlen := hdropped hdrop
      rw [foldedTokens, List.flatMap_eq_nil_iff.mpr hfolded, List.append_nil] at hlen
      exact hlong hlen
    obtain ⟨g, hg, hshadow⟩ := h.history.shadows hfolded (hnot hfolded h.dropped)
    obtain ⟨g₂, hg₂, hshadow₂⟩ := h₂.history.shadows hfolded₂ (hnot hfolded₂ h₂.dropped)
    obtain ⟨-, rfl⟩ := uninterrupted_unique hg hg₂ (hshadow.finished ▸ hfinished) hagree
    rw [hshadow.fromSeq_eq hfinished, hshadow₂.fromSeq_eq hfinished₂]

/-- **Preemption is transparent exactly if it finds no generated tokens**: take any two runs in
    which a request finishes, one of them without evicting it, and the tokens generated for it
    agree as far as both go.  The client sees no difference if and only if whenever the other
    run evicts the sequence, the sequence has no output yet. -/
theorem transparent_iff_resets_empty {δ ζ : Type} [BlockSpaceManager δ] [CacheEngine ζ]
    {e₂ : BaseLLMEngine δ ζ} {log₂ : List SeqEvent} (h : SeqTrace cfg req e log)
    (h₂ : SeqTrace cfg req e₂ log₂)
    (hfinished : (e.replica.objs req.seqId).isFinished = true)
    (hfinished₂ : (e₂.replica.objs req.seqId).isFinished = true)
    (hnone : ∀ folded, .reset folded ∉ log₂)
    (hagree : generated log <+: generated log₂ ∨ generated log₂ <+: generated log) :
    Transparent req log (e.replica.objs req.seqId) (e₂.replica.objs req.seqId) ↔
      ∀ folded, .reset folded ∈ log → folded = [] := by
  have hhistory := h.traceInv.historyInv
  constructor
  · intro htransparent folded hreset
    -- the client would find the folded tokens in the prompt
    have hnil : foldedTokens log = [] := by
      have hprompt := htransparent.prompt
      rw [RequestOutput.fromSeq, hhistory.prompt] at hprompt
      exact List.append_right_eq_self.mp hprompt
    exact List.flatMap_eq_nil_iff.mp hnil _ hreset
  · intro hresets
    have hfolded : ∀ ev ∈ log, SeqEvent.folded ev = [] := by
      rintro (folded | len | t | _) hev
      · exact hresets folded hev
      all_goals rfl
    have hfolded₂ : ∀ ev ∈ log₂, SeqEvent.folded ev = [] := by
      rintro (folded | len | t | _) hev
      · exact absurd hev (hnone folded)
      all_goals rfl
    have hnil : foldedTokens log = [] := List.flatMap_eq_nil_iff.mpr hfolded
    have houtputs := hhistory.outputs
    rw [hnil, List.nil_append] at houtputs
    constructor
    -- the run that has generated fewer tokens has finished first, so the other has, too
    case output =>
      rcases hagree with hagree | hagree
      · exact h.traceInv.fromSeq_eq h₂.traceInv hfinished hfinished₂ hagree hfolded hfolded₂
      · exact (h₂.traceInv.fromSeq_eq h.traceInv hfinished₂ hfinished hagree hfolded₂
          hfolded).symm
    case limit =>
      have hle := hhistory.output_le
      rwa [hhistory.params, ← houtputs] at hle
    case tokens => exact houtputs.symm
    case prompt =>
      have hprompt := hhistory.prompt
      rwa [hnil, List.append_nil] at hprompt

/-! ### Two runs -/

/-- Execute a call and extend the history of a sequence. -/
def traceCall (cfg : EngineConfig) (id : SeqId) (p : BaseLLMEngine β γ × List SeqEvent) :
    Event → Except PyError (BaseLLMEngine β γ × List SeqEvent)
  | .addRequest req => do
    let e ← p.1.exec cfg (.addRequest req)
    pure (e, p.2)
  | .step inp => do
    let (_, out, _) ← p.1.scheduleStep cfg inp
    let e ← p.1.exec cfg (.step inp)
    pure (e, p.2 ++ roundLog p.1.replica.objs inp out id)

/-- Run an engine, add a request, run on and record the history of the request. -/
def tracedRun (cfg : EngineConfig) (before : List Event) (req : Request) (after : List Event)
    (e : BaseLLMEngine β γ) : Except PyError (BaseLLMEngine β γ × List SeqEvent) := do
  let e ← e.run cfg before
  let e ← e.exec cfg (.addRequest req)
  after.foldlM (traceCall cfg req.seqId) (e, [])

theorem traceCall_trace {p p' : BaseLLMEngine β γ × List SeqEvent} {event : Event}
    (h : SeqTrace cfg req p.1 p.2)
    (hother : ∀ req', event = .addRequest req' → req'.seqId ≠ req.seqId)
    (hcall : traceCall cfg req.seqId p event = .ok p') : SeqTrace cfg req p'.1 p'.2 := by
  cases event with
  | addRequest req' =>
    obtain ⟨e, hexec, hpair⟩ := seq_eq_ok.mp hcall
    cases hpair
    exact h.other (hother req' rfl) hexec
  | step inp =>
    obtain ⟨⟨e₁, out, queue⟩, hschedule, hrest⟩ := seq_eq_ok.mp hcall
    obtain ⟨e, hexec, hpair⟩ := seq_eq_ok.mp hrest
    cases hpair
    exact h.step hschedule hexec

theorem tracedRun_trace {before after : List Event} {p : BaseLLMEngine β γ × List SeqEvent}
    (hstart : IsStart e) (hother : ∀ req', .addRequest req' ∈ after → req'.seqId ≠ req.seqId)
    (h : tracedRun cfg before req after e = .ok p) : SeqTrace cfg req p.1 p.2 := by
  obtain ⟨e₁, hbefore, hrest⟩ := seq_eq_ok.mp h
  obtain ⟨e₂, hadd, hafter⟩ := seq_eq_ok.mp hrest
  have hreach : ReachesFrom cfg IsStart (fun _ _ => True) e₁ :=
    Reaches.foldlM (fun _ _ _ => trivial) (.init hstart) (checkGuards_true _ _ _) hbefore
  refine (foldlM_ok_induction (I := fun l p =>
    (∀ req', .addRequest req' ∈ l → req'.seqId ≠ req.seqId) ∧ SeqTrace cfg req p.1 p.2)
    ?_ after (e₂, []) p hafter ⟨hother, .added hreach hadd⟩).2
  rintro event l p p' hcall ⟨hothers, htrace⟩
  refine ⟨fun req' hmem => hothers req' (List.mem_cons_of_mem event hmem), ?_⟩
  exact traceCall_trace htrace (fun req' heq => hothers req' (heq ▸ List.mem_cons_self)) hcall

/-- A request with a limit on the generated tokens. -/
def limitedRequest (id : SeqId) (promptTokenIds : List TokenId) (maxTokens : Nat)
    (hpos : 0 < maxTokens) : Request :=
  ⟨id, [], promptTokenIds, id, { maxTokens, maxTokens_pos := hpos }⟩

/-- Two prompts of two tokens; the history of the second request is recorded. -/
def twoRequests (maxTokens : Nat) (hpos : 0 < maxTokens) (steps : Nat) (e : BaseLLMEngine β γ) :
    Except PyError (BaseLLMEngine β γ × List SeqEvent) :=
  tracedRun vllmConfig [.addRequest (limitedRequest 0 [1, 2] maxTokens hpos)]
    (limitedRequest 1 [3, 4] maxTokens hpos) (List.replicate steps simpleStep) e

theorem twoRequests_trace {maxTokens steps : Nat} {hpos : 0 < maxTokens}
    {p : BaseLLMEngine β γ × List SeqEvent} (hstart : IsStart e)
    (h : twoRequests maxTokens hpos steps e = .ok p) :
    SeqTrace vllmConfig (limitedRequest 1 [3, 4] maxTokens hpos) p.1 p.2 := by
  refine tracedRun_trace hstart (fun req' hmem => ?_) h
  cases List.eq_of_mem_replicate hmem

/-- With one token to generate and two blocks, the second sequence is evicted before it has
    any output. -/
theorem twoRequests_one_transparent :
    ∃ p p₂, twoRequests 1 (by decide) 4 (pagedEngine 2) = .ok p ∧
      twoRequests 1 (by decide) 2 (pagedEngine 4) = .ok p₂ ∧
      p.2 = [.chunk 2, .reset [], .chunk 2, .token 5] ∧
      Transparent (limitedRequest 1 [3, 4] 1 (by decide)) p.2 (p.1.replica.objs 1)
        (p₂.1.replica.objs 1) := by
  have hevicted : (twoRequests 1 (by decide) 4 (pagedEngine 2)).map
      (fun p => (p.2, (p.1.replica.objs 1).isFinished)) =
        .ok ([.chunk 2, .reset [], .chunk 2, .token 5], true) := by rfl
  have hstraight : (twoRequests 1 (by decide) 2 (pagedEngine 4)).map
      (fun p => (p.2, (p.1.replica.objs 1).isFinished)) =
        .ok ([.chunk 2, .token 5], true) := by rfl
  obtain ⟨p, hrun, hend⟩ := map_eq_ok.mp hevicted
  obtain ⟨p₂, hrun₂, hend₂⟩ := map_eq_ok.mp hstraight
  obtain ⟨hlog, hfinished⟩ := Prod.ext_iff.mp hend
  obtain ⟨hlog₂, hfinished₂⟩ := Prod.ext_iff.mp hend₂
  dsimp only at hlog hfinished hlog₂ hfinished₂
  refine ⟨p, p₂, hrun, hrun₂, hlog, ?_⟩
  refine (transparent_iff_resets_empty (twoRequests_trace ⟨_, _, rfl⟩ hrun)
    (twoRequests_trace ⟨_, _, rfl⟩ hrun₂) hfinished hfinished₂ ?_ (.inl ?_)).mpr ?_
  · simp [hlog₂]
  · rw [hlog, hlog₂]
    decide
  · simp [hlog]

/-- With two tokens to generate, the second sequence is evicted after its first token: the
    client gets that token as part of the prompt, and three tokens are generated in all. -/
theorem twoRequests_two_not_transparent :
    ∃ p p₂, twoRequests 2 (by decide) 6 (pagedEngine 3) = .ok p ∧
      twoRequests 2 (by decide) 3 (pagedEngine 4) = .ok p₂ ∧
      SeqTrace vllmConfig (limitedRequest 1 [3, 4] 2 (by decide)) p.1 p.2 ∧
      SeqTrace vllmConfig (limitedRequest 1 [3, 4] 2 (by decide)) p₂.1 p₂.2 ∧
      p₂.2 = [.chunk 2, .token 5, .token 5] ∧
      p.2 = [.chunk 2, .token 5, .reset [5], .chunk 3, .token 5, .token 5] ∧
      RequestOutput.fromSeq (p₂.1.replica.objs 1) =
        ⟨1, [], [3, 4], [], [5, 5], true, some "length"⟩ ∧
      RequestOutput.fromSeq (p.1.replica.objs 1) =
        ⟨1, [], [3, 4, 5], [], [5, 5], true, some "length"⟩ ∧
      ¬ Transparent (limitedRequest 1 [3, 4] 2 (by decide)) p.2 (p.1.replica.objs 1)
        (p₂.1.replica.objs 1) := by
  have hevicted : (twoRequests 2 (by decide) 6 (pagedEngine 3)).map
      (fun p => (p.2, RequestOutput.fromSeq (p.1.replica.objs 1))) =
        .ok ([.chunk 2, .token 5, .reset [5], .chunk 3, .token 5, .token 5],
          ⟨1, [], [3, 4, 5], [], [5, 5], true, some "length"⟩) := by rfl
  have hstraight : (twoRequests 2 (by decide) 3 (pagedEngine 4)).map
      (fun p => (p.2, RequestOutput.fromSeq (p.1.replica.objs 1))) =
        .ok ([.chunk 2, .token 5, .token 5],
          ⟨1, [], [3, 4], [], [5, 5], true, some "length"⟩) := by rfl
  obtain ⟨p, hrun, hend⟩ := map_eq_ok.mp hevicted
  obtain ⟨p₂, hrun₂, hend₂⟩ := map_eq_ok.mp hstraight
  obtain ⟨hlog, houtput⟩ := Prod.ext_iff.mp hend
  obtain ⟨hlog₂, houtput₂⟩ := Prod.ext_iff.mp hend₂
  refine ⟨p, p₂, hrun, hrun₂, twoRequests_trace ⟨_, _, rfl⟩ hrun,
    twoRequests_trace ⟨_, _, rfl⟩ hrun₂, hlog₂, hlog, houtput₂, houtput, fun htransparent => ?_⟩
  have hprompt := htransparent.prompt
  rw [show RequestOutput.fromSeq (p.1.replica.objs 1) = _ from houtput] at hprompt
  exact absurd hprompt (by decide)

end VAttention.Engine
