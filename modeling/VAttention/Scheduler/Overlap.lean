import VAttention.Scheduler.Readmission
import VAttention.Scheduler.Rejection

/-!
# Scheduling while batches are under way

With several pipeline stages `schedule` is called while sequences of earlier batches are still
`RUNNING`.  Such a sequence is not scheduled again, since the loops only take paused ones
(`schedule_batch_ready`), but it can be evicted.  Whether it can also be admitted again by the
same call depends on the policy: only Sarathi admits after it has evicted, and it does not take
back a sequence whose prompt is processed as long as its chunk has room for the decodes
(`schedule_keeps_out`).
-/

namespace VAttention.Scheduler

open VAttention.Core VAttention.Lib Relation

variable {β : Type} [BlockSpaceManager β] {cfg : SchedulerConfig} {now : Time}
  {σ σ' : LoopState β} {phase : Phase} {objs objs' : Heap} {s s' : SchedulerState β}
  {out : SchedulerOutputs}

/-! ## Only paused sequences are scheduled -/

/-- An entry of the batch was paused, was waiting, or has been evicted by this call. -/
structure ReadyBatch (objs : Heap) (W : List SeqId) (σ : LoopState β) : Prop where
  paused : ∀ id, (σ.objs id).isPaused = true → (objs id).isPaused = true
  waiting : ∀ id ∈ σ.waiting, id ∈ W ∨ id ∈ σ.preempted
  scheduled : ∀ id ∈ scheduledIds σ.scheduled,
    (objs id).isPaused = true ∨ id ∈ W ∨ id ∈ σ.preempted

omit [BlockSpaceManager β] in
/-- Which queue a sequence is in does not matter. -/
theorem ReadyBatch.regroup {W : List SeqId} (h : ReadyBatch objs W σ)
    (pending running runningPrefills : List SeqId) :
    ReadyBatch objs W { σ with pending, running, runningPrefills } :=
  ⟨h.paused, h.waiting, h.scheduled⟩

omit [BlockSpaceManager β] in
/-- One more entry. -/
theorem ReadyBatch.concat {W : List SeqId} (h : ReadyBatch objs W σ) {id : SeqId} {chunkLen : Int}
    (hid : (objs id).isPaused = true ∨ id ∈ W ∨ id ∈ σ.preempted) :
    ∀ a ∈ scheduledIds (σ.scheduled ++ [⟨id, chunkLen⟩]),
      (objs a).isPaused = true ∨ a ∈ W ∨ a ∈ σ.preempted := by
  intro a ha
  rw [scheduledIds, List.map_append, List.mem_append] at ha
  rcases ha with ha | ha
  · exact h.scheduled a ha
  · obtain rfl := List.mem_singleton.mp ha
    exact hid

/-- The prefill loops apart, every loop asks for a paused or a waiting sequence. -/
theorem SchedStep.readyBatch {W : List SeqId} (hstep : SchedStep cfg now phase σ σ')
    (hphase : phase ≠ .prefilling) (h : ReadyBatch objs W σ) : ReadyBatch objs W σ' := by
  cases hstep with
  | keep | setAside | requeue | takePrefills => exact ⟨h.paused, h.waiting, h.scheduled⟩
  | prefill => exact absurd rfl hphase
  | decode _ hready | orcaDecode _ hready =>
    exact ⟨h.paused, h.waiting, h.concat (.inl (h.paused _ hready.1))⟩
  | @preempt _ _ _ victim =>
    refine ⟨h.paused, fun a ha => ?_, fun a ha => ?_⟩
    · rw [List.mem_append, List.mem_singleton]
      rcases List.mem_cons.mp ha with rfl | ha
      · exact .inr (.inr rfl)
      · exact (h.waiting a ha).imp_right .inl
    · rw [List.mem_append]
      exact (h.scheduled a ha).imp_right (Or.imp_right .inl)
  | @ignore _ id rest hwaiting =>
    refine ⟨fun a ha => ?_, fun a ha => h.waiting a (by simp [hwaiting, ha]), h.scheduled⟩
    -- what is dropped is not paused any more
    by_cases haid : a = id
    · subst haid
      simp [Sequence.isPaused] at ha
    · simp only [Function.update_of_ne haid] at ha
      exact h.paused a ha
  | @enter _ id rest _ _ _ hwaiting =>
    exact ⟨h.paused, fun a ha => h.waiting a (by simp [hwaiting, ha]),
      h.concat (.inr (h.waiting id (by simp [hwaiting])))⟩

theorem phaseSteps_readyBatch {W : List SeqId} (h : ReflTransGen (SchedStep cfg now phase) σ σ')
    (hphase : phase ≠ .prefilling) (hσ : ReadyBatch objs W σ) : ReadyBatch objs W σ' :=
  reflTransGen_invariant (ReadyBatch objs W) (fun _ _ hstep => hstep.readyBatch hphase) h hσ

omit [BlockSpaceManager β] in
/-- Simple chunking looks at the status before it goes on with a prompt. -/
theorem simplePrefillStep_readyBatch {W : List SeqId} {chunkSize : Nat}
    (hstep : simplePrefillStep chunkSize σ = .ok (some σ')) (h : ReadyBatch objs W σ) :
    ReadyBatch objs W σ' := by
  unfold simplePrefillStep at hstep
  split at hstep
  · cases hstep
  dsimp only at hstep
  split_ifs at hstep with hpaused hprompt
  · cases hstep
    exact ⟨h.paused, h.waiting, h.scheduled⟩
  · cases hstep
    exact ⟨h.paused, h.waiting, h.scheduled⟩
  · obtain ⟨next, -, hstep⟩ := seq_eq_ok.mp hstep
    split_ifs at hstep with hzero
    · cases hstep
      exact ⟨h.paused, h.waiting, h.scheduled⟩
    · cases hstep
      exact ⟨h.paused, h.waiting, h.concat (.inl (h.paused _ (by simpa using hpaused)))⟩

/-- Sarathi's decode loop sets paused sequences aside. -/
theorem decodeStep_prefills_paused (hstep : decodeStep .setAside σ = .ok (some σ'))
    (h : ∀ id ∈ σ.runningPrefills, (σ.objs id).isPaused = true) :
    ∀ id ∈ σ'.runningPrefills, (σ'.objs id).isPaused = true := by
  unfold decodeStep at hstep
  split at hstep
  · cases hstep
  rename_i id rest hpending
  dsimp only at hstep
  split_ifs at hstep with hpaused hprompt hcan
  · cases hstep
    exact h
  · cases hstep
    rw [List.forall_mem_append]
    exact ⟨h, by simpa using hpaused⟩
  · obtain ⟨bm, -, hstep⟩ := seq_eq_ok.mp hstep
    cases hstep
    exact h
  · obtain ⟨τ, hpreempt, hstep⟩ := seq_eq_ok.mp hstep
    obtain ⟨-, rfl⟩ := preempt_eq_ok hpreempt
    cases hstep
    exact h

/-- A prefill loop over paused sequences. -/
theorem SchedStep.readyBatch_of_prefilling {W : List SeqId}
    (hstep : SchedStep cfg now .prefilling σ σ')
    (h : ReadyBatch objs W σ ∧ ∀ id ∈ σ.pending, (objs id).isPaused = true) :
    ReadyBatch objs W σ' ∧ ∀ id ∈ σ'.pending, (objs id).isPaused = true := by
  obtain ⟨hready, hpaused⟩ := h
  cases hstep with
  | keep hpending =>
    rw [hpending, List.forall_mem_cons] at hpaused
    exact ⟨⟨hready.paused, hready.waiting, hready.scheduled⟩, hpaused.2⟩
  | prefill hpending =>
    rw [hpending, List.forall_mem_cons] at hpaused
    exact ⟨⟨hready.paused, hready.waiting, hready.concat (.inl hpaused.1)⟩, hpaused.2⟩

omit [BlockSpaceManager β] in
theorem readyBatch_start (objs : Heap) (s : SchedulerState β) (blockManager : β) :
    ReadyBatch objs s.waiting { s.start objs with blockManager } :=
  ⟨fun _ => id, fun _ => .inl, nofun⟩

theorem vllmSchedule_readyBatch {maxNumBatchedTokens : Nat}
    (h : vllmSchedule cfg maxNumBatchedTokens now (s.start objs) = .ok σ') :
    ReadyBatch objs s.waiting σ' := by
  obtain ⟨σ₁, hadm, hrest⟩ := vllmSchedule_eq_ok h
  have hready : ReadyBatch objs s.waiting σ₁ :=
    phaseSteps_readyBatch (vllmAdmission_steps hadm) (by simp) (readyBatch_start objs s _)
  rcases hrest with rfl | ⟨-, -, hdecode⟩
  · exact hready
  · exact phaseSteps_readyBatch (decodeLoop_steps cfg now hdecode).1 (by simp) (hready.regroup ..)

theorem sarathiSchedule_readyBatch {chunks : ChunkSchedule}
    (h : sarathiSchedule cfg chunks now (s.start objs) = .ok σ') :
    ReadyBatch objs s.waiting σ' := by
  obtain ⟨σ₁, hdecode, h⟩ := seq_eq_ok.mp h
  obtain ⟨σ₂, hprefill, hadm⟩ := seq_eq_ok.mp h
  have hready₁ : ReadyBatch objs s.waiting σ₁ :=
    phaseSteps_readyBatch (decodeLoop_steps cfg now hdecode).1 (by simp)
      ((readyBatch_start objs s _).regroup ..)
  have hprefills : ∀ id ∈ σ₁.runningPrefills, (σ₁.objs id).isPaused = true :=
    iterate_invariant (fun τ : LoopState β => ∀ id ∈ τ.runningPrefills, (τ.objs id).isPaused = true)
      (fun _ _ => decodeStep_prefills_paused) hdecode nofun
  -- so the prefill loop visits paused sequences
  have hready₂ : ReadyBatch objs s.waiting σ₂ := by
    have hboth := reflTransGen_invariant
      (fun τ : LoopState β => ReadyBatch objs s.waiting τ ∧
        ∀ id ∈ τ.pending, (objs id).isPaused = true)
      (fun _ _ hstep => hstep.readyBatch_of_prefilling)
      (sarathiPrefillLoop_steps cfg now hprefill).1
      ⟨hready₁.regroup .., fun id hid => hready₁.paused id (hprefills id hid)⟩
    exact hboth.1
  exact phaseSteps_readyBatch (sarathiAdmission_steps hadm) (by simp) hready₂

theorem SimpleRun.readyBatch {chunkSize : Nat}
    (h : SimpleRun cfg chunkSize now (s.start objs) σ') : ReadyBatch objs s.waiting σ' := by
  have hstart : ReadyBatch objs s.waiting ((s.start objs).requeueRunning now) :=
    (readyBatch_start objs s _).regroup ..
  have hfirst : ∀ {σ₁}, visitPending (simplePrefillStep chunkSize)
      ((s.start objs).requeueRunning now) = .ok σ₁ → ReadyBatch objs s.waiting σ₁ :=
    fun hprefill => iterate_invariant (ReadyBatch objs s.waiting)
      (fun _ _ => simplePrefillStep_readyBatch) hprefill hstart
  cases h with
  | decodes hdecode =>
    exact phaseSteps_readyBatch (decodeLoop_steps cfg now hdecode).1 (by simp) hstart
  | prefills hprefill => exact hfirst hprefill
  | admits hprefill hadm =>
    exact phaseSteps_readyBatch (simpleAdmission_steps hadm) (by simp) (hfirst hprefill)
  | passes hprefill hadm _ _ hdecode =>
    have hready := phaseSteps_readyBatch (simpleAdmission_steps hadm) (by simp) (hfirst hprefill)
    exact phaseSteps_readyBatch (decodeLoop_steps cfg now hdecode).1 (by simp) (hready.regroup ..)

theorem runPolicy_readyBatch {turn turn' : Turn}
    (h : runPolicy cfg now turn (s.start objs) = .ok (σ', turn')) :
    ReadyBatch objs s.waiting σ' := by
  cases runPolicy_run h with
  | vllm _ h => exact vllmSchedule_readyBatch h
  | sarathi _ h => exact sarathiSchedule_readyBatch h
  | simpleChunking _ h => exact h.readyBatch
  | @orca σ₁ _ horca hadm =>
    have hready : ReadyBatch objs s.waiting σ₁ :=
      phaseSteps_readyBatch (orcaLoop_steps cfg now horca).1 (by simp)
        ((readyBatch_start objs s _).regroup ..)
    rcases hadm with rfl | hadm
    · exact hready
    · exact phaseSteps_readyBatch (orcaAdmission_steps hadm) (by simp) hready

/-- **A batch has no sequence of an earlier batch that is still under way**, unless the call has
    evicted it: an entry was paused or waiting. -/
theorem schedule_batch_ready (h : schedule cfg now objs s = .ok (objs', s', out)) :
    ∀ id ∈ out.batchIds,
      (objs id).isPaused = true ∨ id ∈ s.waiting ∨ id ∈ out.preemptedSeqIds := by
  rcases schedule_eq_ok h with ⟨-, -, rfl⟩ | ⟨σ, turn, hrun, -, -, rfl⟩
  · exact nofun
  · exact (runPolicy_readyBatch hrun).scheduled

/-! ## Victims that are under way -/

/-- Every sequence of the queue that asks for a slot gets it without an eviction. -/
def decodesFit (objs : Heap) : β → List SeqId → Bool
  | _, [] => true
  | blockManager, id :: rest =>
    if (objs id).isPaused && (objs id).promptProcessingFinished then
      BlockSpaceManager.canAppendSlot blockManager (objs id) &&
        match BlockSpaceManager.appendSlot blockManager id (objs id) with
        | .ok blockManager => decodesFit objs blockManager rest
        | .error _ => true
    else decodesFit objs blockManager rest

/-- The chunk of a sequence under way is at least as large as the decodes of all running
    sequences, and its prompt is processed. -/
def chunkCoversRunning (chunks : ChunkSchedule) (objs : Heap) (running : List SeqId) (id : SeqId) :
    Bool :=
  (objs id).promptProcessingFinished &&
    match chunks.chunkSize (objs id) with
    | .ok chunkSize => running.length ≤ chunkSize
    | .error _ => true

/-- When Sarathi takes back no victim that is under way: it evicts nobody, or its chunks leave
    no room for one.  The other policies do not admit after they have evicted. -/
def keepsVictimsOut (cfg : SchedulerConfig) (now : Time) (objs : Heap) (s : SchedulerState β) :
    Bool :=
  match cfg.policy with
  | .sarathi chunks =>
    decodesFit objs (BlockSpaceManager.clearPromisedBlocks s.blockManager)
        (sortByPriority now objs s.running) ||
      s.running.all fun id => !(objs id).isRunning || chunkCoversRunning chunks objs s.running id
  | _ => true

/-- Step lemma of the decode loop. -/
theorem SchedStep.decodesFit {policy : OnUnfinishedPrompt}
    (hstep : SchedStep cfg now (.decoding policy) σ σ')
    (h : σ.preempted = [] ∧ decodesFit σ.objs σ.blockManager σ.pending = true) :
    σ'.preempted = [] ∧ decodesFit σ'.objs σ'.blockManager σ'.pending = true := by
  obtain ⟨hnone, hfit⟩ := h
  cases hstep with
  | keep hpending _ hdecode =>
    rw [hpending, Scheduler.decodesFit, if_neg] at hfit
    · exact ⟨hnone, hfit⟩
    · rw [Bool.and_eq_true]
      exact hdecode policy rfl
  | setAside hpending hprompt =>
    rw [hpending, Scheduler.decodesFit, if_neg (by simp [hprompt])] at hfit
    exact ⟨hnone, hfit⟩
  | decode hpending hready _ happend =>
    rw [hpending, Scheduler.decodesFit, if_pos (by simp [hready.1, hready.2]), happend,
      Bool.and_eq_true] at hfit
    exact ⟨hnone, hfit.2⟩
  -- the front of the queue would have had its slot
  | preempt hpending hfront hready hcan =>
    obtain ⟨younger, hqueue⟩ := List.head?_eq_some_iff.mp hfront
    rw [hqueue, Scheduler.decodesFit, if_pos (by simp [hready.1, hready.2]), hcan] at hfit
    cases hfit

/-- **Sarathi does not take back a victim that is under way**, if the chunk sizes cover the
    decodes: only the sequence evicted last can enter the batch, and the gate is closed to it. -/
theorem sarathiSchedule_keeps_out {chunks : ChunkSchedule}
    (hnodup : (s.waiting ++ s.running).Nodup)
    (hprocessed : ∀ id ∈ s.running, (objs id).promptProcessingFinished = true →
      remainingPrompt (objs id) = 0)
    (hcover : ∀ id ∈ s.running, (objs id).isRunning = true →
      chunkCoversRunning chunks objs s.running id = true)
    (h : sarathiSchedule cfg chunks now (s.start objs) = .ok σ') :
    ∀ id ∈ σ'.preempted, (objs id).isRunning = true → id ∉ scheduledIds σ'.scheduled := by
  obtain ⟨σ₁, hdecode, h⟩ := seq_eq_ok.mp h
  obtain ⟨σ₂, hprefill, hadm⟩ := seq_eq_ok.mp h
  obtain ⟨hsteps, -⟩ := sarathiLoops_steps cfg ⟨⟨rfl, rfl⟩, rfl⟩ hdecode hprefill
  have hloop : LoopInv cfg now s.waiting s.running objs σ₂ :=
    hsteps.loopInv hnodup (LoopInv.start cfg now objs s _)
  have hvisit := (sarathiLoops_visitInv cfg hdecode hprefill).2
  have honly : OnlyDecodes σ₂ := sarathiLoops_onlyDecodes cfg hdecode hprefill
  have hpre : σ'.preempted = σ₂.preempted :=
    phaseSteps_preempted_eq (sarathiAdmission_steps hadm) (by simp)
  intro id hid hrunning hscheduled
  rw [hpre] at hid
  -- before admission the victims are waiting
  have hwaiting₂ : id ∈ σ₂.waiting := by
    rw [hvisit.waiting_eq, List.mem_append, List.mem_reverse]
    exact .inl hid
  have hnew : id ∉ scheduledIds σ₂.scheduled := (hloop.of_waiting hnodup hwaiting₂).2.2
  obtain ⟨victim, others, hlast⟩ := List.exists_cons_of_ne_nil
    (List.reverse_ne_nil_iff.mpr (List.ne_nil_of_mem hid))
  have hwaiting : σ₂.waiting = victim :: (others ++ s.waiting) := by
    rw [hvisit.waiting_eq, hlast]
    rfl
  rw [admitWaiting, hwaiting, List.length_cons, iterate_succ_eq_ok] at hadm
  rcases hadm with ⟨-, rfl⟩ | ⟨τ, hstep, hrest⟩
  · exact hnew hscheduled
  cases admissionStep_turn hstep with
  -- the victim at the front of the waiting list is executing, so it is not dropped
  | ignore hfirst _ _ hstatus =>
    rw [hwaiting] at hfirst
    cases hfirst
    have hvictim : victim ∈ σ₂.preempted := by
      rw [← List.mem_reverse, hlast]
      exact List.mem_cons_self
    have hexecuting := (hloop.preempted victim hvictim).2
    rw [hvisit.objs_eq] at hstatus
    simp [Sequence.isExecuting, hstatus, SequenceStatus.isExecuting] at hexecuting
  -- it is admitted, and nobody after it
  | enter hfirst _ _ _ hgate =>
    rw [hwaiting] at hfirst
    cases hfirst
    rw [sarathiAdmission_scheduled_eq (by rfl) hrest, scheduledIds, List.map_append,
      List.mem_append] at hscheduled
    obtain rfl := List.mem_singleton.mp (hscheduled.resolve_left hnew)
    rw [hvisit.objs_eq] at hgate
    have hmem := hvisit.preempted id hid
    have hcovers := hcover id hmem hrunning
    rw [chunkCoversRunning, Bool.and_eq_true] at hcovers
    refine sarathiGate_processed (hprocessed id hmem hcovers.1) ?_ hgate
    intro chunkSize hsize hprefill
    rw [(honly hprefill).1]
    have hlen : (scheduledIds σ₂.scheduled).length ≤ s.running.length :=
      (List.subperm_of_subset hloop.scheduled_nodup hvisit.scheduled).length_le
    have hle := hcovers.2
    rw [hsize, decide_eq_true_eq] at hle
    rw [scheduledIds, List.length_map] at hlen
    omega

/-- **No victim that is under way is scheduled in the call that evicts it.** -/
theorem schedule_keeps_out (hnodup : (s.waiting ++ s.running).Nodup)
    (hprocessed : ∀ id ∈ s.running, (objs id).promptProcessingFinished = true →
      remainingPrompt (objs id) = 0)
    (hkeeps : keepsVictimsOut cfg now objs s = true)
    (h : schedule cfg now objs s = .ok (objs', s', out)) :
    ∀ id ∈ out.preemptedSeqIds, (objs id).isRunning = true → id ∉ out.batchIds := by
  by_cases hsarathi : ∃ chunks, cfg.policy = .sarathi chunks
  · obtain ⟨chunks, hpolicy⟩ := hsarathi
    simp only [keepsVictimsOut, hpolicy, Bool.or_eq_true] at hkeeps
    rcases schedule_eq_ok h with ⟨-, -, rfl⟩ | ⟨σ, turn, hrun, -, -, rfl⟩
    · exact nofun
    have hrun := runPolicy_sarathi hpolicy hrun
    rcases hkeeps with hfit | hcover
    · -- nobody is evicted
      obtain ⟨policy, σ₁, σ₂, hsteps, hobjs, hmanager, hqueue, hnone, -, hpre, -⟩ :=
        sarathiSchedule_evicts rfl hpolicy hrun
      have hnobody := reflTransGen_invariant
        (fun τ : LoopState β =>
          τ.preempted = [] ∧ decodesFit τ.objs τ.blockManager τ.pending = true)
        (fun _ _ hstep => hstep.decodesFit) hsteps
        ⟨hnone, by rw [hobjs, hmanager, hqueue]; exact hfit⟩
      intro id hid
      rw [LoopState.outputs, hpre, hnobody.1] at hid
      cases hid
    · refine sarathiSchedule_keeps_out hnodup hprocessed (fun id hid hrunning => ?_) hrun
      have hall := List.all_eq_true.mp hcover id hid
      simpa [hrunning] using hall
  · have hspec := schedule_spec hnodup h
    exact fun id hid _ =>
      hspec.notMem_batch hnodup (schedule_parked_of_not_sarathi hsarathi h id hid)

end VAttention.Scheduler
