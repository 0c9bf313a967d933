import VAttention.Scheduler.ChunkBounds

/-!
# Victims are not rescheduled at once

The vAttention manager credits the blocks of an evicted sequence at once, and Sarathi admits
waiting sequences right after its decode loop, with the victims at the front of the queue.  Two
things keep them out.

- A victim makes room for the sequence at the front of the decode queue, which then takes a block
  of it; what is left does not hold the victim.
- A sequence that evicts itself leaves room for itself.  But its prompt is processed, so its next
  chunk is empty, provided the tokens in the batch do not exceed its chunk size: the difference
  is not cut off at zero.

With a dynamic chunk schedule the second proviso can fail, since a decoding sequence may be in a
later stage, with smaller chunks, than the sequences that are admitted.
-/

namespace VAttention.Scheduler

open VAttention.Core VAttention.Lib Relation

variable {cfg : SchedulerConfig} {now : Time} {σ σ' : LoopState VAttentionBlockManager}
  {objs : Heap} {s : SchedulerState VAttentionBlockManager} {chunks : ChunkSchedule}

/-! ## Room for the victim -/

/-- How many blocks the decode loop leaves for the sequence it evicted last, which is at the front
    of the waiting list. -/
inductive VictimRoom (σ : LoopState VAttentionBlockManager) : Prop where
  | none (hnone : σ.preempted = [])
  /-- The sequence it made room for has its slot: too few. -/
  | served {victim : SeqId} {rest : List SeqId} (hwaiting : σ.waiting = victim :: rest)
      (hroom : σ.blockManager.freeBlocks <
        σ.blockManager.promisedBlocks + σ.blockManager.getNumBlocks (σ.objs victim))
  /-- The sequence it makes room for is still at the front of the queue. -/
  | serving {victim front : SeqId} {rest younger : List SeqId}
      (hwaiting : σ.waiting = victim :: rest) (hpending : σ.pending = front :: younger)
      (hready : Decodable (σ.objs front))
      (hcross : σ.blockManager.crossesBlock (σ.objs front) = true)
      (hroom : σ.blockManager.freeBlocks ≤
        σ.blockManager.promisedBlocks + σ.blockManager.getNumBlocks (σ.objs victim))
  /-- It has evicted itself. -/
  | itself {victim : SeqId} {rest : List SeqId} (hwaiting : σ.waiting = victim :: rest)
      (hpending : σ.pending = []) (hready : Decodable (σ.objs victim))

/-- **Step lemma** of the decode loop. -/
theorem SchedStep.victimRoom {policy : OnUnfinishedPrompt}
    (hstep : SchedStep cfg now (.decoding policy) σ σ') (h : VictimRoom σ) : VictimRoom σ' := by
  cases hstep with
  -- the front of the queue is not decodable, so nobody is being served
  | keep hpending _ hdecode =>
    cases h with
    | none hnone => exact .none hnone
    | served hwaiting hroom => exact .served hwaiting hroom
    | serving _ hfront hready =>
      rw [hpending] at hfront
      cases hfront
      exact absurd hready (hdecode policy rfl)
    | itself _ hempty =>
      rw [hpending] at hempty
      cases hempty
  | setAside hpending hprompt =>
    cases h with
    | none hnone => exact .none hnone
    | served hwaiting hroom => exact .served hwaiting hroom
    | serving _ hfront hready =>
      rw [hpending] at hfront
      cases hfront
      rw [hready.2] at hprompt
      cases hprompt
    | itself _ hempty =>
      rw [hpending] at hempty
      cases hempty
  | decode hpending _ _ happend =>
    -- promises only grow, and by one if the slot starts a block
    cases happend
    rw [VAttentionBlockManager.appendSlot_eq]
    cases h with
    | none hnone => exact .none hnone
    | served hwaiting hroom =>
      refine .served (by exact hwaiting) ?_
      exact hroom.trans_le (Nat.add_le_add_right (Nat.le_add_right _ _) _)
    -- the slot that is taken starts a block: the room shrinks by one
    | serving hwaiting hfront _ hcross hroom =>
      rw [hpending] at hfront
      cases hfront
      refine .served (by exact hwaiting) ?_
      simp only [hcross, if_true, VAttentionBlockManager.getNumBlocks] at hroom ⊢
      omega
    | itself _ hempty =>
      rw [hpending] at hempty
      cases hempty
  | @preempt _ _ front victim rest hpending hfront hready hcan =>
    -- there was no free block to promise before the eviction
    obtain ⟨hcross, hfull⟩ := (VAttentionBlockManager.canAppendSlot_eq_false _ _).mp hcan
    obtain ⟨credited, hcredited, active, hfree⟩ :=
      σ.blockManager.free_eq victim (σ.objs victim)
    cases rest with
    -- the front of the queue is its end
    | nil =>
      rw [hpending] at hfront
      cases hfront
      exact .itself rfl rfl hready
    | cons first younger =>
      rw [hpending] at hfront
      cases hfront
      change VictimRoom { σ with
        blockManager := BlockSpaceManager.enqueuePreempted
          (σ.blockManager.free victim (σ.objs victim)) victim
        waiting := victim :: σ.waiting
        preempted := σ.preempted ++ [victim]
        pending := front :: younger }
      rw [hfree]
      exact .serving rfl rfl hready hcross (Nat.add_le_add hfull hcredited)

/-! ## The batch -/

/-- Without a prompt in it, the batch consists of one token of each decoding sequence. -/
def OnlyDecodes {β : Type} (σ : LoopState β) : Prop :=
  σ.batchContainsPrefill = false → σ.numBatchedTokens = σ.scheduled.length ∧
    ∀ id ∈ scheduledIds σ.scheduled, (σ.objs id).promptProcessingFinished = true

theorem SchedStep.onlyDecodes {β : Type} [BlockSpaceManager β] {σ σ' : LoopState β}
    {policy : OnUnfinishedPrompt}
    (hstep : SchedStep cfg now (.decoding policy) σ σ') (h : OnlyDecodes σ) : OnlyDecodes σ' := by
  cases hstep with
  | keep | setAside | preempt => exact h
  | decode _ hready =>
    intro hprefill
    obtain ⟨hcount, hfinished⟩ := h hprefill
    refine ⟨?_, fun id hid => ?_⟩
    · simp [hcount]
    · rw [scheduledIds, List.map_append, List.mem_append] at hid
      rcases hid with hid | hid
      · exact hfinished id hid
      · obtain rfl := List.mem_singleton.mp hid
        exact hready.2

/-- The prefill loop schedules prompts only. -/
theorem SchedStep.onlyDecodes_of_prefilling {β : Type} [BlockSpaceManager β] {σ σ' : LoopState β}
    (hstep : SchedStep cfg now .prefilling σ σ')
    (h : OnlyDecodes σ) : OnlyDecodes σ' := by
  cases hstep with
  | keep => exact h
  | prefill => exact nofun

theorem sarathiLoops_onlyDecodes {β : Type} [BlockSpaceManager β] (cfg : SchedulerConfig)
    {s : SchedulerState β} {σ₁ σ₂ : LoopState β}
    (hdecode : visitPending (decodeStep .setAside) (LoopState.requeueRunning now
      { s.start objs with
        blockManager := BlockSpaceManager.clearPromisedBlocks (s.start objs).blockManager }) =
      .ok σ₁)
    (hprefill : visitPending (sarathiPrefillStep chunks)
      { σ₁ with pending := σ₁.runningPrefills, runningPrefills := [] } = .ok σ₂) :
    OnlyDecodes σ₂ := by
  have honly₁ : OnlyDecodes σ₁ :=
    reflTransGen_invariant OnlyDecodes (fun _ _ hstep => hstep.onlyDecodes)
      (decodeLoop_steps cfg now hdecode).1 fun _ => ⟨rfl, nofun⟩
  exact reflTransGen_invariant OnlyDecodes (fun _ _ hstep => hstep.onlyDecodes_of_prefilling)
    (sarathiPrefillLoop_steps cfg now hprefill).1 honly₁

/-! ## Admission after an eviction -/

/-- A turn that goes on past a sequence that is not waiting has admitted it. -/
theorem admissionStep_admits {β : Type} [BlockSpaceManager β] {σ σ' : LoopState β}
    {gate : LoopState β → Sequence → Except PyError (Option Admission)} {id : SeqId}
    {rest : List SeqId} (hwaiting : σ.waiting = id :: rest)
    (hstatus : (σ.objs id).status ≠ .waiting)
    (h : admissionStep cfg now gate σ = .ok (some σ')) :
    BlockSpaceManager.canAllocate σ.blockManager (σ.objs id) = true ∧
      ∃ admission, gate σ (σ.objs id) = .ok (some admission) := by
  cases admissionStep_turn h with
  | ignore hfirst _ _ hself =>
    rw [hwaiting] at hfirst
    cases hfirst
    exact absurd hself hstatus
  | enter hfirst _ _ hcan hgate =>
    rw [hwaiting] at hfirst
    cases hfirst
    exact ⟨hcan, _, hgate⟩

/-- Sarathi's gate is closed to a processed prompt, as long as the batch is not larger than its
    chunk size. -/
theorem sarathiGate_processed {β : Type} {σ : LoopState β} {seq : Sequence}
    {admission : Admission}
    (hdone : remainingPrompt seq = 0)
    (hchunk : ∀ chunkSize, chunks.chunkSize seq = .ok chunkSize →
      σ.batchContainsPrefill = false → σ.numBatchedTokens ≤ chunkSize) :
    chunkGate cfg (sarathiNextNumPrefillTokens chunks) σ seq ≠ .ok (some admission) := by
  intro h
  obtain ⟨hprefill, chunkSize, hsize, -, hne⟩ := sarathiGate_eq_some h
  have hle := hchunk chunkSize hsize hprefill
  rw [hdone] at hne
  omega

/-- Every victim is still waiting. -/
def Parked {β : Type} (σ : LoopState β) : Prop := ∀ id ∈ σ.preempted, id ∈ σ.waiting

/-- Sarathi: the chunk size of a decoding sequence is at least the number of the others. -/
def chunksCoverDecodes (chunks : ChunkSchedule) (objs : Heap) (running : List SeqId) : Bool :=
  let decodes := running.filter fun id => (objs id).promptProcessingFinished
  decodes.all fun id =>
    match chunks.chunkSize (objs id) with
    | .ok chunkSize => decodes.length ≤ chunkSize + 1
    | .error _ => true

/-- A decoding victim and the decoding sequences of the batch were all running. -/
theorem length_scheduled_lt {W : List SeqId} {victim : SeqId}
    (hnodup : (W ++ s.running).Nodup) (hloop : LoopInv cfg now W s.running objs σ)
    (hvisit : VisitInv objs W s.running σ) (hwaiting : victim ∈ σ.waiting)
    (hrunning : victim ∈ s.running) (hready : (objs victim).promptProcessingFinished = true)
    (hfinished : ∀ id ∈ scheduledIds σ.scheduled, (objs id).promptProcessingFinished = true) :
    σ.scheduled.length <
      (s.running.filter fun id => (objs id).promptProcessingFinished).length := by
  have hnew : victim ∉ scheduledIds σ.scheduled := (hloop.of_waiting hnodup hwaiting).2.2
  -- the victim and the batch are different running sequences
  have hall : (victim :: scheduledIds σ.scheduled).Nodup :=
    List.nodup_cons.mpr ⟨hnew, hloop.scheduled_nodup⟩
  have hsub : victim :: scheduledIds σ.scheduled ⊆
      s.running.filter fun id => (objs id).promptProcessingFinished := by
    intro id hid
    rw [List.mem_filter]
    rcases List.mem_cons.mp hid with rfl | hid
    · exact ⟨hrunning, hready⟩
    · exact ⟨hvisit.scheduled id hid, hfinished id hid⟩
  have hle := (List.subperm_of_subset hall hsub).length_le
  rw [List.length_cons, scheduledIds, List.length_map] at hle
  exact hle

/-- **Sarathi does not take back a victim** in the call that evicts it. -/
theorem sarathiSchedule_parked (hnodup : (s.waiting ++ s.running).Nodup)
    (hprocessed : ∀ id ∈ s.running, (objs id).promptProcessingFinished = true →
      remainingPrompt (objs id) = 0)
    (hchunks : chunksCoverDecodes chunks objs s.running = true)
    (h : sarathiSchedule cfg chunks now (s.start objs) = .ok σ') : Parked σ' := by
  obtain ⟨σ₁, hdecode, h⟩ := seq_eq_ok.mp h
  obtain ⟨σ₂, hprefill, hadm⟩ := seq_eq_ok.mp h
  obtain ⟨hsteps, -⟩ := sarathiLoops_steps cfg ⟨⟨rfl, rfl⟩, rfl⟩ hdecode hprefill
  have hloop : LoopInv cfg now s.waiting s.running objs σ₂ :=
    hsteps.loopInv hnodup (LoopInv.start cfg now objs s _)
  obtain ⟨hvisit₁, hvisit₂⟩ := sarathiLoops_visitInv cfg hdecode hprefill
  obtain ⟨hdecodes, hempty⟩ := decodeLoop_steps cfg now hdecode
  obtain ⟨hprefills, -⟩ := sarathiPrefillLoop_steps cfg now hprefill
  -- what the decode loop leaves for the victim, and what is in the batch
  have hroom : VictimRoom σ₁ :=
    reflTransGen_invariant VictimRoom (fun _ _ hstep => hstep.victimRoom) hdecodes (.none rfl)
  have honly₂ : OnlyDecodes σ₂ := sarathiLoops_onlyDecodes cfg hdecode hprefill
  obtain ⟨hobjs, hwaiting₂, hmanager⟩ := prefilling_frame hprefills
  have hparked : Parked σ₂ := by
    intro id hid
    rw [hvisit₂.waiting_eq, List.mem_append, List.mem_reverse]
    exact .inl hid
  by_cases hnone : σ₂.preempted = []
  · have hadm := sarathiAdmission_steps hadm
    intro id hid
    rw [phaseSteps_preempted_eq hadm (by simp), hnone] at hid
    cases hid
  -- the victim at the front of the waiting list stops the admission loop
  obtain ⟨victim, others, hlast⟩ := List.exists_cons_of_ne_nil (List.reverse_ne_nil_iff.mpr hnone)
  have hpre : victim ∈ σ₂.preempted := by
    rw [← List.mem_reverse, hlast]
    exact List.mem_cons_self
  have hwaiting : σ₂.waiting = victim :: (others ++ s.waiting) := by
    rw [hvisit₂.waiting_eq, hlast]
    rfl
  obtain ⟨hrunning, hexecuting⟩ := hloop.preempted victim hpre
  -- the victim is not `WAITING`, so the loop does not drop it either
  have hstatus : (σ₂.objs victim).status ≠ .waiting := by
    intro hstatus
    rw [hvisit₂.objs_eq] at hstatus
    simp [Sequence.isExecuting, hstatus, SequenceStatus.isExecuting] at hexecuting
  rw [admitWaiting, hwaiting, List.length_cons, iterate_succ_eq_ok] at hadm
  rcases hadm with ⟨-, rfl⟩ | ⟨τ, hstep, -⟩
  · exact hparked
  exfalso
  -- a turn that goes on has admitted the victim: there must have been room
  obtain ⟨hcan, admission, hgate⟩ := admissionStep_admits hwaiting hstatus hstep
  rw [hvisit₂.objs_eq] at hcan hgate
  have hneeds := of_decide_eq_true hcan
  rw [hmanager] at hneeds
  dsimp only at hneeds
  cases hroom with
  | none hnone₁ => exact hnone ((phaseSteps_preempted_eq hprefills (by simp)).trans hnone₁)
  -- too few blocks
  | served hfirst hroom =>
    rw [hvisit₁.objs_eq] at hroom
    rw [← hwaiting₂, hwaiting] at hfirst
    cases hfirst
    omega
  | serving _ hpending =>
    rw [hempty] at hpending
    cases hpending
  -- blocks may be enough, but its prompt is processed and the gate is closed
  | itself hfirst _ hready =>
    rw [hvisit₁.objs_eq] at hready
    rw [← hwaiting₂, hwaiting] at hfirst
    cases hfirst
    refine sarathiGate_processed (hprocessed victim hrunning hready.2) ?_ hgate
    intro chunkSize hsize hprefill
    obtain ⟨hcount, hfinished⟩ := honly₂ hprefill
    rw [hvisit₂.objs_eq] at hfinished
    have hlt := length_scheduled_lt hnodup hloop hvisit₂ (hparked victim hpre) hrunning hready.2
      hfinished
    have hcover := List.all_eq_true.mp hchunks victim (List.mem_filter.mpr ⟨hrunning, hready.2⟩)
    rw [hsize] at hcover
    have hle := of_decide_eq_true hcover
    omega

/-! ## Fixed chunk sizes -/

/-- A fixed chunk size covers the decodes of that many sequences. -/
theorem chunksCoverDecodes_fixed {chunkSize : Int} {running : List SeqId}
    (hlen : running.length ≤ chunkSize.toNat) :
    chunksCoverDecodes (.fixed chunkSize) objs running = true := by
  rw [chunksCoverDecodes, List.all_eq_true]
  intro id hid
  apply decide_eq_true
  have hpos := List.length_pos_of_mem hid
  have hle := List.length_filter_le (fun id => (objs id).promptProcessingFinished) running
  omega

/-! ## All policies -/

/-- The decode loop parks its victims. -/
theorem decodeLoop_parked {β : Type} [BlockSpaceManager β] {σ σ' : LoopState β}
    {policy : OnUnfinishedPrompt} (hnone : σ.preempted = [])
    (h : ReflTransGen (SchedStep cfg now (.decoding policy)) σ σ') : Parked σ' := by
  refine reflTransGen_invariant Parked (fun τ τ' hstep hparked => ?_) h (by simp [Parked, hnone])
  cases hstep with
  | keep | setAside | decode => exact hparked
  | @preempt _ _ _ victim =>
    intro id hid
    rcases List.mem_append.mp hid with hid | hid
    · exact List.mem_cons_of_mem _ (hparked id hid)
    · obtain rfl := List.mem_singleton.mp hid
      exact List.mem_cons_self

/-- The condition on Sarathi's chunk sizes; the other policies need none. -/
def victimsStayOut (cfg : SchedulerConfig) (objs : Heap) (running : List SeqId) : Bool :=
  match cfg.policy with
  | .sarathi chunks => chunksCoverDecodes chunks objs running
  | _ => true

/-- Unless it is Sarathi's, a call leaves the victims in the waiting list. -/
theorem schedule_parked_of_not_sarathi {β : Type} [BlockSpaceManager β] {objs objs' : Heap}
    {s s' : SchedulerState β} {out : SchedulerOutputs}
    (hpolicy : ¬∃ chunks, cfg.policy = .sarathi chunks)
    (h : schedule cfg now objs s = .ok (objs', s', out)) :
    ∀ id ∈ out.preemptedSeqIds, id ∈ s'.waiting := by
  rcases schedule_evicts h with hnone | ⟨σ, rfl, hwaiting, hloop⟩
  · simp [hnone]
  · obtain ⟨policy, σ₁, σ₂, hsteps, -, -, -, hnone, -, -, -, hlast⟩ := hloop
    obtain rfl := hlast.resolve_right hpolicy
    rw [hwaiting]
    exact decodeLoop_parked hnone hsteps

/-- **A victim waits after the call that evicts it**, whatever the policy and the number of free
    blocks. -/
theorem schedule_parked {objs' : Heap} {s' : SchedulerState VAttentionBlockManager}
    {out : SchedulerOutputs} (hnodup : (s.waiting ++ s.running).Nodup)
    (hprocessed : ∀ id ∈ s.running, (objs id).promptProcessingFinished = true →
      remainingPrompt (objs id) = 0)
    (hchunks : victimsStayOut cfg objs s.running = true)
    (h : schedule cfg now objs s = .ok (objs', s', out)) :
    ∀ id ∈ out.preemptedSeqIds, id ∈ s'.waiting := by
  by_cases hsarathi : ∃ chunks, cfg.policy = .sarathi chunks
  · obtain ⟨chunks, hpolicy⟩ := hsarathi
    simp only [victimsStayOut, hpolicy] at hchunks
    rcases schedule_eq_ok h with ⟨-, -, rfl⟩ | ⟨σ, turn, hrun, -, rfl, rfl⟩
    · exact nofun
    · exact sarathiSchedule_parked hnodup hprocessed hchunks (runPolicy_sarathi hpolicy hrun)
  · exact schedule_parked_of_not_sarathi hsarathi h

end VAttention.Scheduler
