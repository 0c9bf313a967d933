import VAttention.Engine.Transparency
import VAttention.Manager.Reports
import VAttention.Scheduler.Rejection

/-!
# What a step returns

A `step` with a batch returns one output for every sequence it drops and for every entry of
the batch.  A step without a batch returns nothing, also if it has dropped sequences, and then
it does not take them out of `seq_map` either.

`ReportTrace` follows a request from its arrival through the outcomes and the outputs of the
steps.  If no step drops sequences with nothing to run, every sequence that ends, be it dropped or
not, is reported finished once and leaves `seq_map` (`rejected_reported_once`).
-/

namespace VAttention.Engine

open VAttention.Core VAttention.Lib VAttention.Scheduler VAttention.Manager VAttention.Worker

variable {β γ : Type} [BlockSpaceManager β] [CacheEngine γ] {cfg : EngineConfig}
  {req : Request} {inp : StepInput} {e e₁ e' : BaseLLMEngine β γ} {out : SchedulerOutputs}
  {queue : List SeqId} {outputs : List RequestOutput}

/-! ## The outputs of one step -/

/-- The outputs that concern a sequence. -/
def reportsOf (id : SeqId) (outputs : List RequestOutput) : List RequestOutput :=
  outputs.filter fun output => output.seqId == id

/-- A step with its outputs. -/
theorem EngineInv.step_outputs (h : EngineInv e) (hstep : e.step cfg inp = .ok (e', outputs)) :
    ∃ e₁ out queue, e.scheduleStep cfg inp = .ok (e₁, out, queue) ∧
      Finishes cfg inp out e₁ e' ∧
      outputs = if out.isEmpty then [] else e'.replica.generateRequestOutputs out := by
  obtain ⟨⟨e₁, out, queue⟩, hschedule, hrest⟩ := seq_eq_ok.mp hstep
  refine ⟨e₁, out, queue, hschedule, ?_⟩
  dsimp only at hrest
  split_ifs at hrest with hempty
  · cases hrest
    exact ⟨.inl ⟨hempty, rfl⟩, by rw [if_pos hempty]⟩
  · obtain ⟨e₂, hexecute, hpure⟩ := seq_eq_ok.mp hrest
    cases hpure
    have hspec := BaseLLMEngine.scheduleStep_spec h.nodup hschedule
    exact ⟨.inr ⟨by simpa using hempty, executeStep_view (hspec.wellFormed h.nodup) hexecute⟩,
      by rw [if_neg hempty]⟩

/-- The objects a step reports carry the ids they are filed under. -/
theorem EngineInv.reported_seqId (h : EngineInv e)
    (hschedule : e.scheduleStep cfg inp = .ok (e₁, out, queue))
    (hview : ExecuteView cfg inp out e₁ e') {id : SeqId}
    (hid : id ∈ out.ignoredSeqIds ++ out.batchIds) : (e'.replica.objs id).seqId = id := by
  have hspec := BaseLLMEngine.scheduleStep_spec h.nodup hschedule
  rcases List.mem_append.mp hid with hignored | hbatch
  · have hlive := h.live id (hspec.perm.mem_iff.mp (by simp [hignored]))
    have hobjs : e'.replica.objs id = e₁.replica.objs id :=
      congrArg Prod.fst (hview.engine.ignored id hignored).2
    rw [hobjs, (hspec.ignored id hignored).2.2.2]
    exact hlive.seqId
  · obtain ⟨m, hm, rfl⟩ := List.mem_map.mp hbatch
    obtain ⟨-, s', hadvance, hengine⟩ := hview.engine.batch m hm
    have hobjs : e'.replica.objs m.seqId = s' := congrArg Prod.fst hengine
    rw [hobjs, (advance_keeps (engineHooks_textOnly cfg.detokenize) hadvance).1, entering_seqId]
    exact (h.live_of_schedule hschedule
      (List.mem_append_right _ (hspec.batch_running _ hbatch))).1.seqId

/-- **What a step reports of a sequence**: its object after the step, if the step has a batch
    and drops or schedules the sequence. -/
theorem EngineInv.reportsOf_step (h : EngineInv e)
    (hschedule : e.scheduleStep cfg inp = .ok (e₁, out, queue))
    (hfinishes : Finishes cfg inp out e₁ e') (id : SeqId) :
    reportsOf id (if out.isEmpty then [] else e'.replica.generateRequestOutputs out) =
      if out.isEmpty = false ∧ id ∈ out.ignoredSeqIds ++ out.batchIds
        then [.fromSeq (e'.replica.objs id)] else [] := by
  rcases hfinishes with ⟨hempty, rfl⟩ | ⟨hempty, hview⟩
  · simp [hempty, reportsOf]
  · have hspec := BaseLLMEngine.scheduleStep_spec h.nodup hschedule
    have hwell := hspec.wellFormed h.nodup
    have hnodup : (out.ignoredSeqIds ++ out.batchIds).Nodup :=
      List.nodup_append.mpr ⟨hwell.ignored_nodup, hwell.batch_nodup, fun a ha b hb heq =>
        hwell.ignored_batch a ha (heq ▸ hb)⟩
    -- an output concerns the sequence it is made from
    have hfilter : reportsOf id (e'.replica.generateRequestOutputs out) =
        ((out.ignoredSeqIds ++ out.batchIds).filter (· == id)).map
          fun id => .fromSeq (e'.replica.objs id) := by
      rw [reportsOf, Replica.generateRequestOutputs, List.filter_map]
      congr 1
      refine List.filter_congr fun a ha => ?_
      rw [Function.comp_apply, RequestOutput.fromSeq, h.reported_seqId hschedule hview ha]
    rw [hempty, if_neg (by simp), hfilter, List.filter_beq]
    by_cases hmem : id ∈ out.ignoredSeqIds ++ out.batchIds
    · rw [if_pos ⟨rfl, hmem⟩, List.count_eq_one_of_mem hnodup hmem]
      rfl
    · rw [if_neg fun hand => hmem hand.2, List.count_eq_zero_of_not_mem hmem]
      rfl

/-! ## The reports of a request -/

/-- What `schedule` has decided in a step, and what the step has returned. -/
abbrev Round := SchedulerOutputs × List RequestOutput

/-- A request from its arrival on: the outcomes and the outputs of the steps, the last one last.
    Every step meets `guard`. -/
inductive ReportTrace (cfg : EngineConfig) (guard : BaseLLMEngine β γ → StepInput → Prop)
    (req : Request) : BaseLLMEngine β γ → List Round → Prop where
  | added {e e' : BaseLLMEngine β γ} (hreach : ReachesFrom cfg IsStart (fun _ _ => True) e)
      (hexec : e.exec cfg (.addRequest req) = .ok e') : ReportTrace cfg guard req e' []
  | other {e e' : BaseLLMEngine β γ} {rounds : List Round} {req' : Request}
      (h : ReportTrace cfg guard req e rounds) (hne : req'.seqId ≠ req.seqId)
      (hexec : e.exec cfg (.addRequest req') = .ok e') : ReportTrace cfg guard req e' rounds
  | step {e e₁ e' : BaseLLMEngine β γ} {rounds : List Round} {inp : StepInput}
      {out : SchedulerOutputs} {queue : List SeqId} {outputs : List RequestOutput}
      (h : ReportTrace cfg guard req e rounds) (hguard : guard e inp)
      (hschedule : e.scheduleStep cfg inp = .ok (e₁, out, queue))
      (hstep : e.step cfg inp = .ok (e', outputs)) :
      ReportTrace cfg guard req e' (rounds ++ [(out, outputs)])

/-- The outputs over a whole run that say that a sequence has finished. -/
def finishedReports (id : SeqId) (rounds : List Round) : List RequestOutput :=
  rounds.flatMap fun round => (reportsOf id round.2).filter (·.finished)

theorem finishedReports_snoc (id : SeqId) (rounds : List Round) (round : Round) :
    finishedReports id (rounds ++ [round]) =
      finishedReports id rounds ++ (reportsOf id round.2).filter (·.finished) := by
  simp [finishedReports]

/-- The scheduler has the sequence, and nothing final has been said about it. -/
structure Pending (id : SeqId) (e : BaseLLMEngine β γ) (rounds : List Round) : Prop where
  scheduled : id ∈ e.scheduler.waiting ++ e.scheduler.running
  unreported : finishedReports id rounds = []
  kept : ∀ round ∈ rounds, id ∉ round.1.ignoredSeqIds

/-- The sequence has ended: it is reported finished once, by the step that has dropped it if one
    has, and nobody has it any more. -/
structure Settled (id : SeqId) (e : BaseLLMEngine β γ) (rounds : List Round) : Prop where
  gone : id ∉ e.scheduler.waiting ++ e.scheduler.running
  forgotten : id ∉ e.replica.seqMap
  once : (finishedReports id rounds).length = 1
  dropped : ∀ round ∈ rounds, id ∈ round.1.ignoredSeqIds →
    ∃ output, reportsOf id round.2 = [output] ∧ output.finished = true

/-- A step in which the scheduler does not drop sequences with nothing to run. -/
def rejectsInCompany (cfg : EngineConfig) (e : BaseLLMEngine β γ) (inp : StepInput) : Bool :=
  !rejectsAlone cfg.scheduler inp.now e.replica.objs (schedulerAtStep e)

/-- A step that drops a sequence has a batch. -/
theorem EngineInv.batch_of_ignored (h : EngineInv e) (hguard : rejectsInCompany cfg e inp = true)
    (hschedule : e.scheduleStep cfg inp = .ok (e₁, out, queue)) {id : SeqId}
    (hid : id ∈ out.ignoredSeqIds) : out.isEmpty = false := by
  have hpaused : ∀ id ∈ e.scheduler.running, (e.replica.objs id).isPaused = true := fun id hid => by
    simp [Sequence.isPaused, h.running id hid]
  have hcompany := schedule_ignored_or_batch (by exact hpaused)
    (by exact (List.nodup_append.mp h.nodup).1) (by simpa [rejectsInCompany] using hguard)
    (scheduleStep_schedule hschedule)
  exact hcompany.resolve_left (List.ne_nil_of_mem hid)

section Step

variable {id : SeqId} {rounds : List Round}

/-- A pending sequence that the step drops is settled. -/
theorem Pending.drop (h : Pending id e rounds) (hinv : EngineInv e)
    (hguard : rejectsInCompany cfg e inp = true)
    (hschedule : e.scheduleStep cfg inp = .ok (e₁, out, queue))
    (hfinishes : Finishes cfg inp out e₁ e') (hignored : id ∈ out.ignoredSeqIds)
    (houtputs : outputs = if out.isEmpty then [] else e'.replica.generateRequestOutputs out) :
    Settled id e' (rounds ++ [(out, outputs)]) := by
  have hspec := BaseLLMEngine.scheduleStep_spec hinv.nodup hschedule
  have hempty := hinv.batch_of_ignored hguard hschedule hignored
  have hreports := hinv.reportsOf_step hschedule hfinishes id
  rw [← houtputs, if_pos ⟨hempty, List.mem_append_left _ hignored⟩] at hreports
  obtain ⟨-, hview⟩ := hfinishes.resolve_left fun hcase => by simp [hempty] at hcase
  obtain ⟨-, hengine⟩ := hview.engine.ignored id hignored
  -- the status that the scheduler has set is still there
  have hobjs : e'.replica.objs id = { e.replica.objs id with status := .finishedIgnored } :=
    (congrArg Prod.fst hengine).trans (hspec.ignored id hignored).2.2.2
  rw [hobjs] at hreports
  constructor
  case gone =>
    have hnodup := hspec.perm.nodup_iff.mpr hinv.nodup
    rw [← List.append_assoc] at hnodup
    have hnot : id ∉ e₁.scheduler.waiting ++ e₁.scheduler.running := fun hmem =>
      (List.nodup_append.mp hnodup).2.2 id hmem id hignored rfl
    rw [hview.scheduler]
    exact fun hmem => hnot
      ((List.Sublist.append_left List.filter_sublist e₁.scheduler.waiting).mem hmem)
  case forgotten => exact fun hmem => (congrArg Prod.snd hengine).mp hmem
  case once =>
    rw [finishedReports_snoc, h.unreported, hreports]
    rfl
  case dropped =>
    intro round hround hdropped
    rcases List.mem_append.mp hround with hold | hnew
    · exact absurd hdropped (h.kept round hold)
    · obtain rfl := List.mem_singleton.mp hnew
      exact ⟨_, hreports, rfl⟩

/-- A pending sequence that the step does not drop stays pending or finishes in the batch. -/
theorem Pending.keep (h : Pending id e rounds) (hinv : EngineInv e)
    (hschedule : e.scheduleStep cfg inp = .ok (e₁, out, queue))
    (hfinishes : Finishes cfg inp out e₁ e') (hignored : id ∉ out.ignoredSeqIds)
    (houtputs : outputs = if out.isEmpty then [] else e'.replica.generateRequestOutputs out) :
    Pending id e' (rounds ++ [(out, outputs)]) ∨ Settled id e' (rounds ++ [(out, outputs)]) := by
  have hspec := BaseLLMEngine.scheduleStep_spec hinv.nodup hschedule
  have hreports := hinv.reportsOf_step hschedule hfinishes id
  rw [← houtputs] at hreports
  have hkept : ∀ round ∈ rounds ++ [(out, outputs)], id ∉ round.1.ignoredSeqIds := by
    simpa [or_imp, forall_and, hignored] using h.kept
  -- the scheduler still has the sequence before the batch is executed
  have hmem : id ∈ e₁.scheduler.waiting ++ e₁.scheduler.running := by
    have hold := hspec.perm.mem_iff.mpr h.scheduled
    simpa [hignored] using hold
  rcases hfinishes with ⟨hempty, rfl⟩ | ⟨hempty, hview⟩
  · rw [if_neg (by simp [hempty])] at hreports
    exact .inl ⟨hmem, by rw [finishedReports_snoc, h.unreported, hreports]; rfl, hkept⟩
  by_cases hbatch : id ∈ out.batchIds
  · rw [if_pos ⟨hempty, List.mem_append_right _ hbatch⟩] at hreports
    have hrunning := hspec.batch_running id hbatch
    obtain ⟨m, hm, rfl⟩ := List.mem_map.mp hbatch
    obtain ⟨-, s', -, hengine⟩ := hview.engine.batch m hm
    have hobjs : e'.replica.objs m.seqId = s' := congrArg Prod.fst hengine
    cases hfinished : s'.isFinished with
    | false =>
      refine .inl ⟨?_, ?_, hkept⟩
      · rw [hview.scheduler]
        refine List.mem_append_right _ (List.mem_filter.mpr ⟨hrunning, ?_⟩)
        simp [hobjs, hfinished]
      · rw [finishedReports_snoc, h.unreported, hreports, hobjs]
        simp [RequestOutput.fromSeq, hfinished]
    | true =>
      refine .inr ⟨?_, ?_, ?_, fun round hround hdropped => absurd hdropped (hkept round hround)⟩
      · rw [hview.scheduler]
        intro hlists
        rcases List.mem_append.mp hlists with hwaiting | hfiltered
        · exact (List.nodup_append.mp (hspec.nodup hinv.nodup)).2.2 _ hwaiting _ hrunning rfl
        · have hnot := (List.mem_filter.mp hfiltered).2
          simp [hobjs, hfinished] at hnot
      · intro hknown
        have hnot := (congrArg Prod.snd hengine).mp hknown
        simp [hfinished] at hnot
      · rw [finishedReports_snoc, h.unreported, hreports, hobjs]
        simp [RequestOutput.fromSeq, hfinished]
  · -- neither dropped nor in the batch: no report, and still with the scheduler
    rw [if_neg (by simp [hignored, hbatch])] at hreports
    refine .inl ⟨?_, by rw [finishedReports_snoc, h.unreported, hreports]; rfl, hkept⟩
    rw [hview.scheduler]
    rcases List.mem_append.mp hmem with hwaiting | hrunning
    · exact List.mem_append_left _ hwaiting
    · refine List.mem_append_right _ (List.mem_filter.mpr ⟨hrunning, ?_⟩)
      obtain ⟨hold, hpre⟩ := (hspec.running id hrunning).resolve_left hbatch
      have hsame : e'.replica.objs id = e₁.replica.objs id :=
        congrArg Prod.fst (hview.engine.frame id hignored hpre hbatch)
      rw [hsame, hspec.objs_eq id hignored, hinv.unfinished (List.mem_append_right _ hold)]
      rfl

/-- Nothing more happens to a settled sequence. -/
theorem Settled.step (h : Settled id e rounds) (hinv : EngineInv e)
    (hschedule : e.scheduleStep cfg inp = .ok (e₁, out, queue))
    (hfinishes : Finishes cfg inp out e₁ e')
    (houtputs : outputs = if out.isEmpty then [] else e'.replica.generateRequestOutputs out) :
    Settled id e' (rounds ++ [(out, outputs)]) := by
  have hspec := BaseLLMEngine.scheduleStep_spec hinv.nodup hschedule
  have hreports := hinv.reportsOf_step hschedule hfinishes id
  -- what the scheduler does not have it cannot touch
  have hlists : id ∉ e₁.scheduler.waiting ++ (e₁.scheduler.running ++ out.ignoredSeqIds) :=
    fun hmem => h.gone (hspec.perm.mem_iff.mp hmem)
  simp only [List.mem_append, not_or] at hlists
  obtain ⟨hwaiting, hrunning, hignored⟩ := hlists
  have hbatch : id ∉ out.batchIds := fun hmem => hrunning (hspec.batch_running id hmem)
  have hpre : id ∉ out.preemptedSeqIds := fun hmem =>
    h.gone (List.mem_append_right _ (hspec.preempted id hmem).1)
  rw [← houtputs, if_neg (by simp [hignored, hbatch])] at hreports
  have hsame : id ∈ e'.replica.seqMap ↔ id ∈ e.replica.seqMap := by
    have hscheduled := congrArg Prod.snd (BaseLLMEngine.scheduleStep_view hschedule id)
    rcases hfinishes with ⟨-, rfl⟩ | ⟨-, hview⟩
    · exact iff_of_eq hscheduled
    · exact iff_of_eq
        ((congrArg Prod.snd (hview.engine.frame id hignored hpre hbatch)).trans hscheduled)
  constructor
  case gone =>
    rcases hfinishes with ⟨-, rfl⟩ | ⟨-, hview⟩
    · simp [hwaiting, hrunning]
    · rw [hview.scheduler]
      simp [SchedulerState.onStepCompleted, hwaiting, hrunning]
  case forgotten => exact fun hmem => h.forgotten (hsame.mp hmem)
  case once =>
    rw [finishedReports_snoc, hreports]
    simpa using h.once
  case dropped =>
    intro round hround hdropped
    rcases List.mem_append.mp hround with hold | hnew
    · exact h.dropped round hold hdropped
    · obtain rfl := List.mem_singleton.mp hnew
      exact absurd hdropped hignored

end Step

/-- Invariant of the reports of a request. -/
structure ReportInv (req : Request) (e : BaseLLMEngine β γ) (rounds : List Round) : Prop where
  engine : EngineInv e
  state : Pending req.seqId e rounds ∨ Settled req.seqId e rounds

theorem ReportTrace.reportInv {rounds : List Round}
    (h : ReportTrace cfg (fun e inp => rejectsInCompany cfg e inp = true) req e rounds) :
    ReportInv req e rounds := by
  induction h with
  | added hreach hexec =>
    have hinv := engineInv_of_reaches (fun _ hstart => hstart) hreach
    have hadd := addRequest_view hexec
    refine ⟨hinv.exec hexec, .inl ⟨?_, rfl, by simp⟩⟩
    rw [hadd.scheduler]
    simp [SchedulerState.addSeq]
  | @other e e' rounds req' _ hne hexec ih =>
    have hadd := addRequest_view hexec
    have hview := hadd.engine req.seqId
    rw [if_neg hne.symm] at hview
    refine ⟨ih.engine.exec hexec, ih.state.imp (fun h => ?_) fun h => ?_⟩
    · refine ⟨?_, h.unreported, h.kept⟩
      rw [hadd.scheduler]
      have hold := h.scheduled
      simp only [SchedulerState.addSeq, List.mem_append] at hold ⊢
      tauto
    · refine ⟨?_, fun hmem => h.forgotten ((congrArg Prod.snd hview).mp hmem), h.once, h.dropped⟩
      rw [hadd.scheduler]
      have hold := h.gone
      simp only [SchedulerState.addSeq, List.mem_append, List.mem_singleton] at hold ⊢
      have hne := hne.symm
      tauto
  | @step e e₁ e' rounds inp out queue outputs _ hguard hschedule hstep ih =>
    obtain ⟨e₂, out', queue', hschedule', hfinishes, houtputs⟩ := ih.engine.step_outputs hstep
    cases hschedule.symm.trans hschedule'
    refine ⟨ih.engine.step hschedule hfinishes, ?_⟩
    rcases ih.state with hpending | hsettled
    · by_cases hignored : req.seqId ∈ out.ignoredSeqIds
      · exact .inr (hpending.drop ih.engine hguard hschedule hfinishes hignored houtputs)
      · exact hpending.keep ih.engine hschedule hfinishes hignored houtputs
    · exact .inr (hsettled.step ih.engine hschedule hfinishes houtputs)

/-- **Rejected requests are reported**: for every policy, block manager and cache engine, in
    every run whose steps do not drop sequences with nothing to run, a sequence that a step marks
    `FINISHED_IGNORED` is in the outputs of that step, once and as finished; it is reported
    finished once over the whole run, and it is no longer in `seq_map`. -/
theorem rejected_reported_once {rounds : List Round}
    (h : ReportTrace cfg (fun e inp => rejectsInCompany cfg e inp = true) req e rounds)
    {round : Round} (hround : round ∈ rounds) (hrejected : req.seqId ∈ round.1.ignoredSeqIds) :
    (∃ output, reportsOf req.seqId round.2 = [output] ∧ output.finished = true) ∧
      (finishedReports req.seqId rounds).length = 1 ∧ req.seqId ∉ e.replica.seqMap := by
  rcases h.reportInv.state with hpending | hsettled
  · exact absurd hrejected (hpending.kept round hround)
  · exact ⟨hsettled.dropped round hround hrejected, hsettled.once, hsettled.forgotten⟩

/-! ### Two runs -/

/-- Execute a step and record its outcome and its outputs. -/
def recordStep (cfg : EngineConfig) (inp : StepInput) (p : BaseLLMEngine β γ × List Round) :
    Except PyError (BaseLLMEngine β γ × List Round) := do
  let (_, out, _) ← p.1.scheduleStep cfg inp
  let (e, outputs) ← p.1.step cfg inp
  pure (e, p.2 ++ [(out, outputs)])

theorem ReportTrace.record {guard : BaseLLMEngine β γ → StepInput → Prop}
    (check : BaseLLMEngine β γ → StepInput → Bool)
    (hcheck : ∀ e inp, check e inp = true → guard e inp) {inputs : List StepInput}
    {p p' : BaseLLMEngine β γ × List Round}
    (h : ReportTrace cfg guard req p.1 p.2)
    (hguards : checkGuards (recordStep cfg) (fun p inp => check p.1 inp) inputs p = true)
    (hrun : inputs.foldlM (fun p inp => recordStep cfg inp p) p = .ok p') :
    ReportTrace cfg guard req p'.1 p'.2 := by
  induction inputs generalizing p with
  | nil =>
    cases hrun
    exact h
  | cons inp inputs ih =>
    obtain ⟨p₁, hcall, hrest⟩ := seq_eq_ok.mp hrun
    replace hcall : recordStep cfg inp p = .ok p₁ := hcall
    rw [checkGuards, hcall, Bool.and_eq_true] at hguards
    refine ih ?_ hguards.2 hrest
    obtain ⟨⟨e₁, out, queue⟩, hschedule, hcall⟩ := seq_eq_ok.mp hcall
    obtain ⟨⟨e', outputs⟩, hstep, hpure⟩ := seq_eq_ok.mp hcall
    cases hpure
    exact h.step (hcheck _ _ hguards.1) hschedule hstep

/-- A prompt of five tokens, one more than the model takes. -/
def longRequest : Request := ⟨0, [], [1, 2, 3, 4, 5], 0, {}⟩

/-- A prompt that fits. -/
def shortRequest : Request := ⟨1, [], [1, 2], 1, {}⟩

/-- What the rounds have dropped. -/
def ignoredBy (rounds : List Round) : List (List SeqId) :=
  rounds.map fun round => round.1.ignoredSeqIds

/-- The model yields token 5 for every sequence. -/
def simpleInput : StepInput := ⟨9, fun _ => 5⟩

/-- The engine with the long request in it. -/
def longAdded : Except PyError (BaseLLMEngine PagedBlockManager PagedCacheEngine) :=
  (pagedEngine 4).exec vllmConfig (.addRequest longRequest)

theorem longAdded_trace
    {guard : BaseLLMEngine PagedBlockManager PagedCacheEngine → StepInput → Prop}
    {e : BaseLLMEngine PagedBlockManager PagedCacheEngine} (h : longAdded = .ok e) :
    ReportTrace vllmConfig guard longRequest e [] :=
  .added (.init ⟨_, _, rfl⟩) h

/-- With a second request to run, the step that drops the first one reports it. -/
theorem accompanied_rejection_reported :
    ∃ e e₁ p, longAdded = .ok e ∧ e.exec vllmConfig (.addRequest shortRequest) = .ok e₁ ∧
      rejectsInCompany vllmConfig e₁ simpleInput = true ∧
      [simpleInput].foldlM (fun p inp => recordStep vllmConfig inp p) (e₁, []) = .ok p ∧
      ∃ round ∈ p.2, longRequest.seqId ∈ round.1.ignoredSeqIds ∧
        (∃ output, reportsOf longRequest.seqId round.2 = [output] ∧ output.finished = true) ∧
        (finishedReports longRequest.seqId p.2).length = 1 ∧
        longRequest.seqId ∉ p.1.replica.seqMap := by
  have heval : (do
      let e ← longAdded
      let e₁ ← e.exec vllmConfig (.addRequest shortRequest)
      let p ← [simpleInput].foldlM (fun p inp => recordStep vllmConfig inp p) (e₁, [])
      pure (rejectsInCompany vllmConfig e₁ simpleInput, ignoredBy p.2)) =
        .ok (true, [[0]]) := by decide +kernel
  obtain ⟨e, hlong, heval⟩ := seq_eq_ok.mp heval
  obtain ⟨e₁, hshort, heval⟩ := seq_eq_ok.mp heval
  obtain ⟨p, hrun, heval⟩ := seq_eq_ok.mp heval
  simp only [pure, Except.pure, Except.ok.injEq, Prod.mk.injEq] at heval
  obtain ⟨hguard, hignored⟩ := heval
  have hmem : [0] ∈ ignoredBy p.2 := by simp [hignored]
  obtain ⟨round, hround, hids⟩ := List.mem_map.mp hmem
  have hrejected : longRequest.seqId ∈ round.1.ignoredSeqIds := by
    rw [hids]
    decide
  refine ⟨e, e₁, p, hlong, hshort, hguard, hrun, round, hround, hrejected, ?_⟩
  have htrace : ReportTrace vllmConfig (fun e inp => rejectsInCompany vllmConfig e inp = true)
      longRequest e₁ [] := (longAdded_trace hlong).other (by decide) hshort
  refine rejected_reported_once
    (ReportTrace.record (rejectsInCompany vllmConfig) (fun _ _ => id) htrace ?_ hrun) hround
    hrejected
  rw [checkGuards, hguard]
  cases recordStep vllmConfig simpleInput (e₁, []) <;> rfl

/-- Alone, the long request is dropped by a step that returns nothing; the next step does not
    report it either, and it stays in `seq_map`. -/
theorem lone_rejection_unreported :
    ∃ e p, longAdded = .ok e ∧
      [simpleInput, simpleInput].foldlM (fun p inp => recordStep vllmConfig inp p) (e, []) = .ok p ∧
      ReportTrace vllmConfig (fun _ _ => True) longRequest p.1 p.2 ∧
      ignoredBy p.2 = [[longRequest.seqId], []] ∧ p.2.map Prod.snd = [[], []] ∧
      longRequest.seqId ∈ p.1.replica.seqMap := by
  have heval : (do
      let e ← longAdded
      let p ← [simpleInput, simpleInput].foldlM (fun p inp => recordStep vllmConfig inp p) (e, [])
      pure (ignoredBy p.2, p.2.map Prod.snd,
        decide (longRequest.seqId ∈ p.1.replica.seqMap))) =
        .ok ([[0], []], [[], []], true) := by decide +kernel
  obtain ⟨e, hlong, heval⟩ := seq_eq_ok.mp heval
  obtain ⟨p, hrun, heval⟩ := seq_eq_ok.mp heval
  simp only [pure, Except.pure, Except.ok.injEq, Prod.mk.injEq, decide_eq_true_eq] at heval
  obtain ⟨hignored, houtputs, hknown⟩ := heval
  refine ⟨e, p, hlong, hrun, ?_, hignored, houtputs, hknown⟩
  exact ReportTrace.record (fun _ _ => true) (fun _ _ _ => trivial) (longAdded_trace hlong)
    (checkGuards_true _ _ _) hrun

/-! ## The reports as a history

For a client that collects the outputs of its request, a trace is a `ReportedRun`. -/

theorem ReportTrace.engineInv {guard : BaseLLMEngine β γ → StepInput → Prop} {rounds : List Round}
    (h : ReportTrace cfg guard req e rounds) : EngineInv e := by
  induction h with
  | added hreach hexec => exact (engineInv_of_reaches (fun _ hstart => hstart) hreach).exec hexec
  | other _ _ hexec ih => exact ih.exec hexec
  | step _ _ hschedule hstep ih =>
    obtain ⟨e₂, out', queue', hschedule', hfinishes, -⟩ := ih.step_outputs hstep
    exact ih.step hschedule' hfinishes

/-- The reports of one step extend those of the steps before it. -/
theorem reportedRun_entry {detokenize : Detokenizer} {s₀ s s' : Sequence} {pieces : List Text}
    {reports : List RequestOutput} {objs : Heap} {id : SeqId}
    (h : ReportedRun detokenize s₀ pieces reports s)
    (hrun : SeqRun (engineHooks detokenize) s (entryLog objs inp out id) s') :
    ∃ pieces', ReportedRun detokenize s₀ pieces'
      (reports ++ if id ∈ out.batchIds then [.fromSeq s'] else []) s' := by
  unfold entryLog at hrun
  cases hfind : out.scheduledSeqMetadataList.find? fun m => m.seqId == id with
  | none =>
    rw [hfind] at hrun
    have hbatch : id ∉ out.batchIds := by simpa [scheduledIds] using hfind
    rw [if_neg hbatch, List.append_nil, hrun.eq_of_nil]
    exact ⟨pieces, h⟩
  | some m =>
    rw [hfind] at hrun
    have hbatch : id ∈ out.batchIds := by
      obtain rfl : m.seqId = id := by simpa using List.find?_some hfind
      exact List.mem_map_of_mem (List.mem_of_find?_eq_some hfind)
    rw [if_pos hbatch]
    dsimp only at hrun
    split_ifs at hrun
    · exact ⟨_, h.token hrun.move_of_singleton⟩
    · exact ⟨_, h.chunk hrun.move_of_singleton⟩

theorem reportedRun_round {detokenize : Detokenizer} {s₀ s s' : Sequence} {pieces : List Text}
    {reports : List RequestOutput} {objs : Heap} {id : SeqId}
    (h : ReportedRun detokenize s₀ pieces reports s)
    (hrun : SeqRun (engineHooks detokenize) s (roundLog objs inp out id) s') :
    ∃ pieces', ReportedRun detokenize s₀ pieces'
      (reports ++ if out.isEmpty = false ∧ id ∈ out.ignoredSeqIds ++ out.batchIds
        then [.fromSeq s'] else []) s' := by
  unfold roundLog at hrun
  split_ifs at hrun with hignored hempty hpre
  · have hdrop := h.drop hrun.move_of_singleton (!out.isEmpty)
    refine ⟨pieces, ?_⟩
    cases hempty : out.isEmpty with
    | true => simpa [hempty] using hdrop
    | false => simpa [hempty, hignored] using hdrop
  · rw [if_neg (by simp [hempty]), List.append_nil, hrun.eq_of_nil]
    exact ⟨pieces, h⟩
  · obtain ⟨s₁, hreset, hentry⟩ := hrun.of_cons
    have hreports := reportedRun_entry (h.reset hreset) hentry
    simpa [hempty, hignored] using hreports
  · have hreports := reportedRun_entry h hrun
    simpa [hempty, hignored] using hreports

/-- The outputs that the steps return for a request are the reports of a history of its
    sequence. -/
theorem ReportTrace.reportedRun {guard : BaseLLMEngine β γ → StepInput → Prop}
    {rounds : List Round} (h : ReportTrace cfg guard req e rounds) :
    ∃ pieces, ReportedRun cfg.detokenize (req.toSequence cfg) pieces
      (rounds.flatMap fun round => reportsOf req.seqId round.2) (e.replica.objs req.seqId) := by
  induction h with
  | added hreach hexec =>
    rw [(addRequest_view hexec).objs_self]
    exact ⟨[], .nil⟩
  | other _ hne hexec ih =>
    rw [(addRequest_view hexec).of_ne hne.symm]
    exact ih
  | @step e e₁ e' rounds inp out queue outputs htrace _ hschedule hstep ih =>
    have hinv := htrace.engineInv
    obtain ⟨e₂, out', queue', hschedule', hfinishes, houtputs⟩ := hinv.step_outputs hstep
    cases hschedule.symm.trans hschedule'
    have hreports := hinv.reportsOf_step hschedule hfinishes req.seqId
    obtain ⟨pieces, hrun⟩ := ih
    rw [List.flatMap_append, List.flatMap_singleton, houtputs, hreports]
    exact reportedRun_round hrun (hinv.round_run hschedule hfinishes req.seqId)

end VAttention.Engine
