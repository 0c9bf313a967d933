import VAttention.Scheduler.Progress

/-!
# When a batch is not empty

A condition on the state before a call of `schedule`, for the vLLM and the Sarathi policy,
under which the call fills its batch (`schedule_nonempty_of_productive`): the head of the
waiting list can be admitted, or a running sequence can go on.
-/

namespace VAttention.Scheduler

open VAttention.Core VAttention.Lib Relation

variable {β : Type} [BlockSpaceManager β] {cfg : SchedulerConfig} {now : Time}
  {σ σ' : LoopState β}

/-! ## The head of the waiting list -/

/-- The head of the waiting list has arrived and is too long for the model. -/
def headTooLong (cfg : SchedulerConfig) (now : Time) (objs : Heap) (waiting : List SeqId) : Bool :=
  match waiting with
  | [] => false
  | id :: _ => (objs id).arrivalTime ≤ now && cfg.maxModelLen < (objs id).getLen

/-- The head of the waiting list passes the checks that do not depend on the batch. -/
def headAdmissible (cfg : SchedulerConfig) (now : Time) (objs : Heap) (blockManager : β)
    (waiting running : List SeqId) : Bool :=
  match waiting with
  | [] => false
  | id :: _ => (objs id).arrivalTime ≤ now && (objs id).getLen ≤ cfg.maxModelLen &&
      BlockSpaceManager.canAllocate blockManager (objs id) && running.length < cfg.maxNumSeqs

/-- Unless its head is dropped, admission fills the batch or changes nothing. -/
theorem admitWaiting_of_not_dropped
    {gate : LoopState β → Sequence → Except PyError (Option Admission)} (hgate : GateSound gate)
    (hhead : ∀ id ∈ σ.waiting.head?, (σ.objs id).arrivalTime ≤ now →
      cfg.maxModelLen < (σ.objs id).getLen → (σ.objs id).status ≠ .waiting)
    (h : admitWaiting cfg now gate σ = .ok σ') : σ'.scheduled ≠ [] ∨ σ' = σ := by
  cases hwaiting : σ.waiting with
  | nil =>
    rw [admitWaiting, hwaiting] at h
    cases h
    exact .inr rfl
  | cons id rest =>
    rw [admitWaiting, hwaiting, List.length_cons, iterate_succ_eq_ok] at h
    rcases h with ⟨-, rfl⟩ | ⟨τ, hstep, hrest⟩
    · exact .inr rfl
    -- the first turn has gone on, so it has admitted the head
    · have hsteps := iterate_reflTransGen (fun _ _ => admissionStep_sound hgate) hrest
      refine .inl (phaseSteps_scheduled_ne_nil hsteps ?_)
      cases admissionStep_sound hgate hstep with
      | keep _ hvisits => cases hvisits
      | ignore hfirst harrived hover hstatus =>
        exact absurd hstatus (hhead _ (by rw [hfirst]; rfl) harrived hover)
      | enter => simp

/-- Unless its head is too long, admission fills the batch or changes nothing. -/
theorem admitWaiting_of_not_tooLong
    {gate : LoopState β → Sequence → Except PyError (Option Admission)} (hgate : GateSound gate)
    (hlong : headTooLong cfg now σ.objs σ.waiting = false)
    (h : admitWaiting cfg now gate σ = .ok σ') : σ'.scheduled ≠ [] ∨ σ' = σ := by
  refine admitWaiting_of_not_dropped hgate (fun id hid harrived hover => ?_) h
  obtain ⟨rest, hwaiting⟩ := List.head?_eq_some_iff.mp hid
  simp [headTooLong, hwaiting, harrived, hover] at hlong

/-- An admissible head that passes the gate is admitted. -/
theorem admitWaiting_of_admissible
    {gate : LoopState β → Sequence → Except PyError (Option Admission)} (hgate : GateSound gate)
    (hhead : headAdmissible cfg now σ.objs σ.blockManager σ.waiting σ.running = true)
    (hpass : ∀ id ∈ σ.waiting.head?, (σ.objs id).getLen ≤ cfg.maxModelLen →
      σ.running.length < cfg.maxNumSeqs → gate σ (σ.objs id) ≠ .ok none)
    (h : admitWaiting cfg now gate σ = .ok σ') : σ'.scheduled ≠ [] := by
  cases hwaiting : σ.waiting with
  | nil => simp [headAdmissible, hwaiting] at hhead
  | cons id rest =>
    simp only [headAdmissible, hwaiting, Bool.and_eq_true, decide_eq_true_eq] at hhead
    obtain ⟨⟨⟨harrived, hfits⟩, hcan⟩, hroom⟩ := hhead
    rw [admitWaiting, hwaiting, List.length_cons, iterate_succ_eq_ok] at h
    rcases h with ⟨hstop, -⟩ | ⟨τ, hstep, hrest⟩
    · -- the loop cannot stop at this sequence
      exfalso
      simp only [admissionStep, hwaiting, not_lt.mpr harrived, not_lt.mpr hfits, hcan, if_false,
        Bool.not_true, Bool.false_eq_true] at hstop
      obtain ⟨admission, hok, hstop⟩ := seq_eq_ok.mp hstop
      cases admission with
      | none => exact hpass id (by simp [hwaiting]) hfits hroom hok
      | some admission =>
        obtain ⟨_, -, hpure⟩ := seq_eq_ok.mp hstop
        cases hpure
    · have hsteps := iterate_reflTransGen (fun _ _ => admissionStep_sound hgate) hrest
      refine phaseSteps_scheduled_ne_nil hsteps ?_
      cases admissionStep_sound hgate hstep with
      | keep _ hvisits => cases hvisits
      | ignore hfirst _ hover =>
        rw [hwaiting] at hfirst
        cases hfirst
        exact absurd hover (not_lt.mpr hfits)
      | enter => simp

omit [BlockSpaceManager β] in
theorem vllmGate_ne_none {maxNumBatchedTokens : Nat} {seq : Sequence}
    (hlimit : cfg.maxModelLen ≤ maxNumBatchedTokens) (htokens : σ.numBatchedTokens = 0)
    (hfits : seq.getLen ≤ cfg.maxModelLen) (hroom : σ.running.length < cfg.maxNumSeqs) :
    vllmGate cfg maxNumBatchedTokens σ seq ≠ .ok none := by
  have htok : ¬ (maxNumBatchedTokens : Int) < σ.numBatchedTokens + seq.getLen := by omega
  have hseqs : ¬ cfg.maxNumSeqs < σ.running.length + 1 := by omega
  rw [vllmGate, if_neg htok, if_neg hseqs]
  rintro ⟨⟩

/-! ## Sarathi's prefill loop -/

/-- The next chunk of a prompt in an empty batch. -/
def firstChunk (chunks : ChunkSchedule) (seq : Sequence) : Except PyError Int := do
  assertThat (!seq.isFinished) (.assertionError "not seq.is_finished()")
  let chunkSize ← chunks.chunkSize seq
  pure (min (remainingPrompt seq) chunkSize)

/-- The next chunk of a prompt in an empty batch is not zero. -/
def getsChunk (chunks : ChunkSchedule) (seq : Sequence) : Bool :=
  match firstChunk chunks seq with
  | .ok next => next != 0
  | .error _ => true

omit [BlockSpaceManager β] in
theorem sarathiNextNumPrefillTokens_of_empty {chunks : ChunkSchedule} {seq : Sequence}
    (hprefill : σ.batchContainsPrefill = false) (htokens : σ.numBatchedTokens = 0) :
    sarathiNextNumPrefillTokens chunks σ seq = firstChunk chunks seq := by
  simp [sarathiNextNumPrefillTokens, firstChunk, hprefill, htokens]

/-- The batch has an entry, or a queued prompt will get a chunk. -/
def PrefillReady (chunks : ChunkSchedule) (σ : LoopState β) : Prop :=
  σ.scheduled ≠ [] ∨ σ.batchContainsPrefill = false ∧ σ.numBatchedTokens = 0 ∧
    ∃ id ∈ σ.pending, getsChunk chunks (σ.objs id) = true

omit [BlockSpaceManager β] in
theorem sarathiPrefillStep_ready {chunks : ChunkSchedule}
    (hstep : sarathiPrefillStep chunks σ = .ok (some σ')) (h : PrefillReady chunks σ) :
    PrefillReady chunks σ' := by
  unfold sarathiPrefillStep at hstep
  split at hstep
  · cases hstep
  · rename_i id rest hpending
    obtain ⟨⟨⟩, -, hstep⟩ := seq_eq_ok.mp hstep
    obtain ⟨next, hnext, hstep⟩ := seq_eq_ok.mp hstep
    split_ifs at hstep with hzero
    · cases hstep
      refine h.imp_right fun ⟨hprefill, htokens, a, ha, hchunk⟩ =>
        ⟨hprefill, htokens, a, ?_, hchunk⟩
      -- the sequence passed over got no chunk, so it is not the one we wait for
      rw [sarathiNextNumPrefillTokens_of_empty hprefill htokens, hzero] at hnext
      rw [hpending] at ha
      refine (List.mem_cons.mp ha).resolve_left ?_
      rintro rfl
      simp [getsChunk, hnext] at hchunk
    · cases hstep
      exact .inl (by simp [schedulePrefill])

omit [BlockSpaceManager β] in
theorem PrefillReady.scheduled_ne_nil {chunks : ChunkSchedule} (hready : PrefillReady chunks σ)
    (h : visitPending (sarathiPrefillStep chunks) σ = .ok σ') (hdone : σ'.pending = []) :
    σ'.scheduled ≠ [] := by
  have hsteps := iterate_reflTransGen
    (R := fun σ σ' => sarathiPrefillStep chunks σ = .ok (some σ')) (fun _ _ => id) h
  have hend := reflTransGen_invariant (PrefillReady chunks)
    (fun _ _ => sarathiPrefillStep_ready) hsteps hready
  refine hend.resolve_right ?_
  rintro ⟨-, -, id, hid, -⟩
  simp [hdone] at hid

omit [BlockSpaceManager β] in
theorem sarathiGate_ne_none {chunks : ChunkSchedule} {seq : Sequence}
    (hprefill : σ.batchContainsPrefill = false) (htokens : σ.numBatchedTokens = 0)
    (hchunk : getsChunk chunks seq = true) (hroom : σ.running.length < cfg.maxNumSeqs) :
    chunkGate cfg (sarathiNextNumPrefillTokens chunks) σ seq ≠ .ok none := by
  intro hgate
  rw [chunkGate, if_neg (not_le.mpr hroom),
    sarathiNextNumPrefillTokens_of_empty hprefill htokens] at hgate
  obtain ⟨next, hnext, hgate⟩ := seq_eq_ok.mp hgate
  split_ifs at hgate with hzero
  · simp [getsChunk, hnext, hzero] at hchunk
  · cases hgate

/-- Sarathi's decode loop sets all sequences aside if no prompt is processed. -/
theorem decodeLoop_setAside (hpaused : ∀ id ∈ σ.pending, (σ.objs id).isPaused = true)
    (hprompts : ∀ id ∈ σ.pending, (σ.objs id).promptProcessingFinished = false) :
    visitPending (decodeStep .setAside) σ =
      .ok { σ with pending := [], runningPrefills := σ.runningPrefills ++ σ.pending } := by
  unfold visitPending
  generalize hqueue : σ.pending = queue at hpaused hprompts
  -- every turn moves the front of the queue to the sequences set aside
  induction queue generalizing σ with
  | nil =>
    rw [List.append_nil]
    change Except.ok σ = _
    rw [← hqueue]
  | cons id rest ih =>
    rw [List.forall_mem_cons] at hpaused hprompts
    have hstep : decodeStep .setAside σ = .ok (some
        { σ with pending := rest, runningPrefills := σ.runningPrefills ++ [id] }) := by
      simp [decodeStep, hqueue, hpaused.1, hprompts.1]
    rw [List.length_cons, iterate_succ_eq_ok]
    refine .inr ⟨_, hstep, ?_⟩
    have hrest := ih (σ := { σ with
      pending := rest, runningPrefills := σ.runningPrefills ++ [id] }) rfl hpaused.2 hprompts.2
    rw [hrest, List.append_assoc, List.singleton_append]

/-! ## The policies -/

/-- A call of `schedule` will fill its batch: the pipeline is not full, and there is something
    to run.  vLLM admits the head of the waiting list, or decodes if the head is not even
    dropped; Sarathi decodes if it can, else it goes on with a running prompt, and if nothing
    runs it admits the head. -/
def productive (cfg : SchedulerConfig) (now : Time) (objs : Heap) (s : SchedulerState β) : Bool :=
  let admissible :=
    headAdmissible cfg now objs (cfg.startManager s.blockManager) s.waiting s.running
  let decodes := s.running.any fun id => (objs id).promptProcessingFinished
  s.numRunningBatches < cfg.numPipelineStages &&
  match cfg.policy with
  | .vllm _ => admissible ||
      (!headTooLong cfg now objs s.waiting && decodes && !starved cfg now objs s)
  | .sarathi chunks =>
    if decodes then !starved cfg now objs s
    else if s.running.isEmpty then
      admissible && s.waiting.head?.all fun id => getsChunk chunks (objs id)
    else s.running.any fun id => getsChunk chunks (objs id)
  | _ => false

section Policies

variable (hpaused : ∀ id ∈ σ.running, (σ.objs id).isPaused = true)

include hpaused in
/-- A queue of running sequences that is not starved and has a processed prompt is ready. -/
theorem requeueRunning_ready
    (hstarved : starvedQueue σ.objs σ.blockManager (sortByPriority now σ.objs σ.running) = false)
    (hsome : ∃ id ∈ σ.running, (σ.objs id).promptProcessingFinished = true) :
    DecodeReady σ.objs (σ.requeueRunning now) := by
  have hmem : ∀ id, id ∈ sortByPriority now σ.objs σ.running ↔ id ∈ σ.running := fun id =>
    (sortByPriority_perm now _ _).mem_iff
  refine (decodeReady_or_of_not_starved (σ := σ.requeueRunning now) ?_ hstarved).resolve_right ?_
  · exact fun id hid => hpaused id ((hmem id).mp hid)
  · intro hall
    obtain ⟨id, hid, hfinished⟩ := hsome
    have hunfinished : (σ.objs id).promptProcessingFinished = false := hall id ((hmem id).mpr hid)
    rw [hfinished] at hunfinished
    cases hunfinished

include hpaused in
theorem vllmSchedule_nonempty {maxNumBatchedTokens : Nat}
    (hlimit : cfg.maxModelLen ≤ maxNumBatchedTokens) (htokens : σ.numBatchedTokens = 0)
    (hignored : σ.ignored = [])
    (hproductive : headAdmissible cfg now σ.objs
        (BlockSpaceManager.clearPromisedBlocks σ.blockManager) σ.waiting σ.running = true ∨
      headTooLong cfg now σ.objs σ.waiting = false ∧
        (∃ id ∈ σ.running, (σ.objs id).promptProcessingFinished = true) ∧
        starvedQueue σ.objs (BlockSpaceManager.clearPromisedBlocks σ.blockManager)
          (sortByPriority now σ.objs σ.running) = false)
    (h : vllmSchedule cfg maxNumBatchedTokens now σ = .ok σ') : σ'.scheduled ≠ [] := by
  obtain ⟨σ₁, hadm, h⟩ := seq_eq_ok.mp h
  -- if the admission loop has filled the batch, it is the batch
  by_cases hne : σ₁.scheduled = []
  case neg =>
    rw [if_pos (by simp [hne])] at h
    cases h
    exact hne
  rcases hproductive with hhead | ⟨hlong, hsome, hstarved⟩
  · refine absurd hne (admitWaiting_of_admissible vllmGate_sound (by exact hhead) ?_ hadm)
    exact fun id _ hfits hroom => vllmGate_ne_none hlimit (by exact htokens) hfits hroom
  -- the admission loop has changed nothing, and the decode loop starts from the same state
  · obtain rfl := (admitWaiting_of_not_tooLong vllmGate_sound (by exact hlong) hadm).resolve_left
      (not_not_intro hne)
    rw [if_neg (by simpa [hignored] using hne)] at h
    have hdecode := decodeLoop_steps cfg now h
    exact (requeueRunning_ready (by exact hpaused) (by exact hstarved)
      (by exact hsome)).scheduled_ne_nil hdecode.1 hdecode.2

include hpaused in
/-- Sarathi's decode loop fills the batch if a processed prompt is there and it is not
    starved. -/
theorem sarathiSchedule_nonempty_of_decode {chunks : ChunkSchedule}
    (hsome : ∃ id ∈ σ.running, (σ.objs id).promptProcessingFinished = true)
    (hstarved : starvedQueue σ.objs (BlockSpaceManager.clearPromisedBlocks σ.blockManager)
      (sortByPriority now σ.objs σ.running) = false)
    (h : sarathiSchedule cfg chunks now σ = .ok σ') : σ'.scheduled ≠ [] := by
  obtain ⟨σ₁, hdecode, h⟩ := seq_eq_ok.mp h
  obtain ⟨σ₂, hprefill, h⟩ := seq_eq_ok.mp h
  have hdecode := decodeLoop_steps cfg now hdecode
  have hprefill := sarathiPrefillLoop_steps cfg now hprefill
  have hadm := sarathiAdmission_steps h
  have hne : σ₁.scheduled ≠ [] :=
    (requeueRunning_ready (by exact hpaused) (by exact hstarved)
      (by exact hsome)).scheduled_ne_nil hdecode.1 hdecode.2
  exact phaseSteps_scheduled_ne_nil hadm
    (phaseSteps_scheduled_ne_nil hprefill.1 (by exact hne))

include hpaused in
/-- With no processed prompt, Sarathi's decode loop hands all running sequences on to the
    prefill loop. -/
theorem sarathiSchedule_eq_of_unfinished {chunks : ChunkSchedule}
    (hprefills : σ.runningPrefills = [])
    (hprompts : ∀ id ∈ σ.running, (σ.objs id).promptProcessingFinished = false) :
    sarathiSchedule cfg chunks now σ = (do
      let σ ← visitPending (sarathiPrefillStep chunks) { σ with
        blockManager := BlockSpaceManager.clearPromisedBlocks σ.blockManager
        pending := sortByPriority now σ.objs σ.running
        running := [] }
      admitWaiting cfg now (chunkGate cfg (sarathiNextNumPrefillTokens chunks)) σ) := by
  have hmem : ∀ id, id ∈ sortByPriority now σ.objs σ.running → id ∈ σ.running := fun id =>
    (sortByPriority_perm now _ _).mem_iff.mp
  have hloop := decodeLoop_setAside (σ := LoopState.requeueRunning now
      { σ with blockManager := BlockSpaceManager.clearPromisedBlocks σ.blockManager })
    (fun id hid => hpaused id (hmem id hid)) fun id hid => hprompts id (hmem id hid)
  unfold sarathiSchedule
  dsimp only
  rw [hloop]
  simp [LoopState.requeueRunning, hprefills, Bind.bind, Except.bind]

include hpaused in
theorem sarathiSchedule_nonempty_of_prefill {chunks : ChunkSchedule}
    (hprefills : σ.runningPrefills = []) (hprefill : σ.batchContainsPrefill = false)
    (htokens : σ.numBatchedTokens = 0)
    (hprompts : ∀ id ∈ σ.running, (σ.objs id).promptProcessingFinished = false)
    (hsome : ∃ id ∈ σ.running, getsChunk chunks (σ.objs id) = true)
    (h : sarathiSchedule cfg chunks now σ = .ok σ') : σ'.scheduled ≠ [] := by
  rw [sarathiSchedule_eq_of_unfinished hpaused hprefills hprompts] at h
  obtain ⟨σ₁, hloop, h⟩ := seq_eq_ok.mp h
  have hadm := sarathiAdmission_steps h
  refine phaseSteps_scheduled_ne_nil hadm ?_
  obtain ⟨id, hid, hchunk⟩ := hsome
  have hqueued : id ∈ sortByPriority now σ.objs σ.running :=
    (sortByPriority_perm now _ _).mem_iff.mpr hid
  exact PrefillReady.scheduled_ne_nil
    (.inr ⟨by exact hprefill, by exact htokens, id, by exact hqueued, by exact hchunk⟩) hloop
    (sarathiPrefillLoop_steps cfg now hloop).2

theorem sarathiSchedule_nonempty_of_admission {chunks : ChunkSchedule}
    (hprefills : σ.runningPrefills = []) (hprefill : σ.batchContainsPrefill = false)
    (htokens : σ.numBatchedTokens = 0) (hrunning : σ.running = [])
    (hhead : headAdmissible cfg now σ.objs
      (BlockSpaceManager.clearPromisedBlocks σ.blockManager) σ.waiting [] = true)
    (hchunk : ∀ id ∈ σ.waiting.head?, getsChunk chunks (σ.objs id) = true)
    (h : sarathiSchedule cfg chunks now σ = .ok σ') : σ'.scheduled ≠ [] := by
  rw [sarathiSchedule_eq_of_unfinished (by simp [hrunning]) hprefills (by simp [hrunning])] at h
  obtain ⟨σ₁, hloop, h⟩ := seq_eq_ok.mp h
  rw [hrunning] at hloop
  cases hloop
  refine admitWaiting_of_admissible (chunkGate_sound fun _ _ _ => sarathiNextNumPrefillTokens_le)
    (by exact hhead) ?_ h
  exact fun id hid _ hroom => sarathiGate_ne_none hprefill htokens (hchunk id hid) hroom

end Policies

/-- **A productive call fills its batch.** -/
theorem schedule_nonempty_of_productive {objs objs' : Heap} {s s' : SchedulerState β}
    {out : SchedulerOutputs} (hpaused : ∀ id ∈ s.running, (objs id).isPaused = true)
    (hproductive : productive cfg now objs s = true)
    (h : schedule cfg now objs s = .ok (objs', s', out)) : out.isEmpty = false := by
  unfold productive starved SchedulerConfig.startManager at hproductive
  dsimp only at hproductive
  obtain ⟨hidle, hproductive⟩ := Bool.and_eq_true_iff.mp hproductive
  rw [schedule, if_neg (not_le.mpr (of_decide_eq_true hidle))] at h
  obtain ⟨⟨σ, turn⟩, hrun, h⟩ := seq_eq_ok.mp h
  cases h
  -- the batch that is returned is the one of the loops
  suffices hmain : σ.scheduled ≠ [] by
    simpa [LoopState.outputs, SchedulerOutputs.isEmpty] using hmain
  cases hpolicy : cfg.policy with
  | vllm n =>
    simp only [hpolicy, Bool.or_eq_true, Bool.and_eq_true, Bool.not_eq_true',
      List.any_eq_true] at hproductive
    refine vllmSchedule_nonempty hpaused (cfg.vllm_limit n hpolicy) rfl rfl ?_
      (runPolicy_vllm hpolicy hrun)
    apply hproductive.imp_right
    rintro ⟨⟨hlong, hsome⟩, hstarved⟩
    exact ⟨hlong, hsome, hstarved⟩
  | sarathi chunks =>
    have hsched := runPolicy_sarathi hpolicy hrun
    simp only [hpolicy] at hproductive
    split_ifs at hproductive with hdecodes hempty
    · rw [Bool.not_eq_true'] at hproductive
      exact sarathiSchedule_nonempty_of_decode hpaused (List.any_eq_true.mp hdecodes) hproductive
        hsched
    · rw [List.isEmpty_iff] at hempty
      rw [hempty, Bool.and_eq_true] at hproductive
      refine sarathiSchedule_nonempty_of_admission rfl rfl rfl hempty hproductive.1 ?_ hsched
      intro id (hid : s.waiting.head? = some id)
      have hall := hproductive.2
      rw [hid] at hall
      exact hall
    · have hprompts : ∀ id ∈ s.running, (objs id).promptProcessingFinished = false := by
        simpa using hdecodes
      exact sarathiSchedule_nonempty_of_prefill hpaused rfl rfl rfl hprompts
        (List.any_eq_true.mp hproductive) hsched
  | orca => simp [hpolicy] at hproductive
  | fasterTransformer => simp [hpolicy] at hproductive
  | simpleChunking => simp [hpolicy] at hproductive

end VAttention.Scheduler
