import VAttention.Scheduler.Progress

/-!
# What the vAttention block manager is asked

The scheduler checks the blocks of a sequence when it admits it, and later one block whenever
the next token starts one; what it has promised is forgotten at the next call.  `Covered`
says which checks stand behind a batch: none for the sequences that were running, one check of
the whole prompt for those that are admitted.
-/

namespace VAttention.Scheduler

open VAttention.Core VAttention.Lib Relation

variable {cfg : SchedulerConfig} {now : Time} {σ σ' : LoopState VAttentionBlockManager}

/-- The running sequences for which a decode loop without evictions promises a block. -/
def nextBlocks (blockManager : VAttentionBlockManager) (objs : Heap) (ids : List SeqId) : Nat :=
  ids.countP fun id =>
    (objs id).isPaused && (objs id).promptProcessingFinished && blockManager.crossesBlock (objs id)

/-- The checks behind a batch. -/
inductive Covered (cfg : SchedulerConfig) (objs : Heap)
    (s : SchedulerState VAttentionBlockManager) (batch : List SeqId) : Prop where
  /-- All entries were running. -/
  | running (hrunning : ∀ id ∈ batch, id ∈ s.running)
  /-- All entries are admitted in this call, and their blocks fit together. -/
  | admitted (hfits : (batch.map fun id => s.blockManager.getNumBlocks (objs id)).sum ≤
      s.blockManager.freeBlocks)
  /-- Sarathi: one entry is admitted, its blocks fit besides those promised to the decodes. -/
  | chunked {chunks : ChunkSchedule} {old : List SeqId} {id : SeqId}
      (hpolicy : cfg.policy = .sarathi chunks) (hbatch : batch = old ++ [id])
      (hold : ∀ k ∈ old, k ∈ s.running) (hwaiting : id ∈ s.waiting)
      (hlen : (objs id).getLen ≤ cfg.maxModelLen)
      (hfits : s.blockManager.watermarkBlocks + s.blockManager.getNumBlocks (objs id) +
        nextBlocks s.blockManager objs s.running ≤ s.blockManager.freeBlocks)

/-! ## The loops over the running sequences -/

/-- Everything that these loops move around was running, and the evicted sequences are at the
    front of the waiting list. -/
structure VisitInv {β : Type} (objs : Heap) (waiting running : List SeqId) (σ : LoopState β) :
    Prop where
  objs_eq : σ.objs = objs
  waiting_eq : σ.waiting = σ.preempted.reverse ++ waiting
  pending : ∀ id ∈ σ.pending, id ∈ running
  runningPrefills : ∀ id ∈ σ.runningPrefills, id ∈ running
  scheduled : ∀ id ∈ scheduledIds σ.scheduled, id ∈ running
  preempted : ∀ id ∈ σ.preempted, id ∈ running

theorem SchedStep.visitInv {β : Type} [BlockSpaceManager β] {σ σ' : LoopState β} {phase : Phase}
    {objs : Heap} {waiting running : List SeqId}
    (hphase : phase.visits = true) (hstep : SchedStep cfg now phase σ σ')
    (h : VisitInv objs waiting running σ) : VisitInv objs waiting running σ' := by
  -- the sequence at the front of the queue, and those behind it
  have hqueue {id : SeqId} {rest : List SeqId} (hpending : σ.pending = id :: rest) :
      id ∈ running ∧ ∀ k ∈ rest, k ∈ running := by
    have hall := h.pending
    rw [hpending, List.forall_mem_cons] at hall
    exact hall
  have hsnoc {ids : List SeqId} {id : SeqId} (hids : ∀ k ∈ ids, k ∈ running)
      (hid : id ∈ running) : ∀ k ∈ ids ++ [id], k ∈ running := by
    rw [List.forall_mem_append]
    exact ⟨hids, by simpa using hid⟩
  have hbatch {id : SeqId} {chunkLen : Int} (hid : id ∈ running) :
      ∀ k ∈ scheduledIds (σ.scheduled ++ [⟨id, chunkLen⟩]), k ∈ running := by
    rw [scheduledIds, List.map_append]
    exact hsnoc h.scheduled hid
  cases hstep with
  | keep hpending =>
    exact ⟨h.objs_eq, h.waiting_eq, (hqueue hpending).2, h.runningPrefills, h.scheduled,
      h.preempted⟩
  | setAside hpending =>
    obtain ⟨hid, hrest⟩ := hqueue hpending
    exact ⟨h.objs_eq, h.waiting_eq, hrest, hsnoc h.runningPrefills hid, h.scheduled, h.preempted⟩
  | decode hpending | prefill hpending | orcaDecode hpending =>
    obtain ⟨hid, hrest⟩ := hqueue hpending
    exact ⟨h.objs_eq, h.waiting_eq, hrest, h.runningPrefills, hbatch hid, h.preempted⟩
  | preempt hpending =>
    have hall := h.pending
    rw [hpending, List.forall_mem_append] at hall
    refine ⟨h.objs_eq, ?_, hall.1, h.runningPrefills, h.scheduled,
      hsnoc h.preempted (by simpa using hall.2)⟩
    simp [h.waiting_eq]
  | ignore | enter | requeue | takePrefills => cases hphase

/-- What the decode loop has promised, as long as it has evicted nobody. -/
structure PromiseInv (blockManager : VAttentionBlockManager) (objs : Heap) (total : Nat)
    (σ : LoopState VAttentionBlockManager) : Prop where
  objs_eq : σ.objs = objs
  blockSize : σ.blockManager.blockSize = blockManager.blockSize
  watermark : σ.blockManager.watermarkBlocks = blockManager.watermarkBlocks
  freeBlocks : σ.preempted = [] → σ.blockManager.freeBlocks = blockManager.freeBlocks
  promised : σ.preempted = [] →
    σ.blockManager.promisedBlocks + nextBlocks blockManager objs σ.pending = total

/-- Whether the next token starts a block depends on the block size only. -/
theorem crossesBlock_congr {m m' : VAttentionBlockManager} (h : m.blockSize = m'.blockSize)
    (s : Sequence) : m.crossesBlock s = m'.crossesBlock s := by
  rw [VAttentionBlockManager.crossesBlock, VAttentionBlockManager.crossesBlock, h]

theorem SchedStep.promiseInv {policy : OnUnfinishedPrompt} {blockManager : VAttentionBlockManager}
    {objs : Heap} {total : Nat} (hstep : SchedStep cfg now (.decoding policy) σ σ')
    (h : PromiseInv blockManager objs total σ) : PromiseInv blockManager objs total σ' := by
  -- a sequence that is not decodable is promised nothing
  have hskip {id : SeqId} {rest : List SeqId} (hpending : σ.pending = id :: rest)
      (hnot : ¬ Decodable (σ.objs id)) :
      nextBlocks blockManager objs rest = nextBlocks blockManager objs σ.pending := by
    rw [h.objs_eq] at hnot
    rw [hpending, nextBlocks, nextBlocks, List.countP_cons_of_neg]
    simp only [Bool.and_eq_true, not_and]
    exact fun hready => absurd hready hnot
  cases hstep with
  | keep hpending hvisits hdecode =>
    refine ⟨h.objs_eq, h.blockSize, h.watermark, h.freeBlocks, fun hnone => ?_⟩
    rw [hskip hpending (hdecode policy rfl)]
    exact h.promised hnone
  | setAside hpending hprompt =>
    refine ⟨h.objs_eq, h.blockSize, h.watermark, h.freeBlocks, fun hnone => ?_⟩
    rw [hskip hpending (by simp [Decodable, hprompt])]
    exact h.promised hnone
  | @decode _ _ id rest _ hpending hready hcan happend =>
    cases happend
    have hcross := crossesBlock_congr h.blockSize (σ.objs id)
    -- the sequence leaves the queue, and its block is promised now
    have hcount : nextBlocks blockManager objs σ.pending = nextBlocks blockManager objs rest +
        if σ.blockManager.crossesBlock (σ.objs id) then 1 else 0 := by
      rw [hpending, nextBlocks, nextBlocks, List.countP_cons, hcross, ← h.objs_eq]
      simp [hready.1, hready.2]
    have hpromised := h.promised
    rw [hcount] at hpromised
    rw [VAttentionBlockManager.appendSlot_eq]
    refine ⟨h.objs_eq, h.blockSize, h.watermark, h.freeBlocks, fun hnone => ?_⟩
    have hsum := hpromised hnone
    dsimp only
    omega
  | @preempt _ _ front victim =>
    -- a manager that has evicted promises nothing that is used here
    obtain ⟨credited, -, active, hfree⟩ := σ.blockManager.free_eq victim (σ.objs victim)
    refine ⟨h.objs_eq, ?_, ?_, fun hnone => ?_, fun hnone => ?_⟩
    · simp only [BlockSpaceManager.enqueuePreempted, BlockSpaceManager.free, hfree]
      exact h.blockSize
    · simp only [BlockSpaceManager.enqueuePreempted, BlockSpaceManager.free, hfree]
      exact h.watermark
    · simp at hnone
    · simp at hnone

/-- The prefill loop asks the block manager nothing. -/
theorem SchedStep.blockManager_eq (hstep : SchedStep cfg now .prefilling σ σ') :
    σ'.blockManager = σ.blockManager := by
  cases hstep with
  | keep | prefill => rfl

/-! ## The loop over the waiting sequences -/

/-- What has been admitted fits the free blocks; `blockManager` is the manager before the first
    admission. -/
structure AdmittedInv (blockManager : VAttentionBlockManager) (objs : Heap)
    (running : List SeqId) (σ : LoopState VAttentionBlockManager) : Prop where
  lens : ∀ id, (σ.objs id).getLen = (objs id).getLen
  blockSize : σ.blockManager.blockSize = blockManager.blockSize
  freeBlocks : σ.blockManager.freeBlocks = blockManager.freeBlocks
  promised : σ.blockManager.promisedBlocks =
    ((scheduledIds σ.scheduled).map fun id => blockManager.getNumBlocks (objs id)).sum
  fits : σ.blockManager.promisedBlocks ≤ blockManager.freeBlocks
  running_eq : ∀ id ∈ σ.running, id ∈ scheduledIds σ.scheduled ∨ id ∈ running

/-- Dropping a sequence changes no length. -/
theorem getLen_update_status (objs : Heap) (id : SeqId) (status : SequenceStatus) (k : SeqId) :
    (Function.update objs id { objs id with status } k).getLen = (objs k).getLen := by
  by_cases hk : k = id
  · rw [hk, Function.update_self]
    rfl
  · rw [Function.update_of_ne hk]

theorem SchedStep.admittedInv {blockManager : VAttentionBlockManager} {objs : Heap}
    {running : List SeqId} (hstep : SchedStep cfg now .admission σ σ')
    (h : AdmittedInv blockManager objs running σ) : AdmittedInv blockManager objs running σ' := by
  cases hstep with
  | keep _ hvisits => cases hvisits
  | ignore =>
    refine ⟨fun k => ?_, h.blockSize, h.freeBlocks, h.promised, h.fits, h.running_eq⟩
    rw [← h.lens k]
    exact getLen_update_status σ.objs _ _ k
  | @enter _ id rest _ _ _ hwaiting _ _ hcan hallocate =>
    cases hallocate
    -- the size and the length are those at the start
    have hblocks : σ.blockManager.getNumBlocks (σ.objs id) =
        blockManager.getNumBlocks (objs id) := by
      rw [VAttentionBlockManager.getNumBlocks, VAttentionBlockManager.getNumBlocks, h.blockSize,
        h.lens id]
    -- `can_allocate` leaves the watermark on top, which is not needed here
    have hroom : σ.blockManager.watermarkBlocks + σ.blockManager.getNumBlocks (σ.objs id) +
        σ.blockManager.promisedBlocks ≤ σ.blockManager.freeBlocks := of_decide_eq_true hcan
    refine ⟨h.lens, h.blockSize, h.freeBlocks, ?_, ?_, fun k hk => ?_⟩
    · simp only [VAttentionBlockManager.allocate, scheduledIds, List.map_append, List.map_cons,
        List.map_nil, List.sum_append, List.sum_singleton]
      rw [hblocks, h.promised]
      rfl
    · have hfree := h.freeBlocks
      simp only [VAttentionBlockManager.allocate]
      omega
    · rw [scheduledIds, List.map_append, List.mem_append]
      rcases List.mem_append.mp hk with hk | hk
      · exact (h.running_eq k hk).imp_left .inl
      · exact .inl (.inr hk)

/-- Sarathi's gate opens while no prompt is in the batch, for a chunk that is not zero. -/
theorem sarathiGate_eq_some {β : Type} {σ : LoopState β} {chunks : ChunkSchedule} {seq : Sequence}
    {admission : Admission}
    (h : chunkGate cfg (sarathiNextNumPrefillTokens chunks) σ seq = .ok (some admission)) :
    σ.batchContainsPrefill = false ∧ ∃ chunkSize, chunks.chunkSize seq = .ok chunkSize ∧
      admission.chunkLen = min (remainingPrompt seq) (chunkSize - σ.numBatchedTokens) ∧
      min (remainingPrompt seq) (chunkSize - σ.numBatchedTokens) ≠ 0 := by
  unfold chunkGate at h
  split_ifs at h
  · cases h
  obtain ⟨next, hnext, h⟩ := seq_eq_ok.mp h
  obtain ⟨⟨⟩, -, hnext⟩ := seq_eq_ok.mp hnext
  obtain ⟨chunkSize, hsize, hnext⟩ := seq_eq_ok.mp hnext
  split_ifs at h with hzero
  · cases h
  cases h
  split_ifs at hnext with hprefill
  · -- a second prompt gets no chunk
    cases hnext
    exact absurd rfl hzero
  · cases hnext
    exact ⟨by simpa using hprefill, chunkSize, hsize, rfl, hzero⟩

/-- Once a prompt is in the batch, Sarathi's admission only drops. -/
theorem sarathiAdmission_of_prefill {β : Type} [BlockSpaceManager β] {σ σ' : LoopState β}
    {chunks : ChunkSchedule} (hprefill : σ.batchContainsPrefill)
    (h : admissionStep cfg now (chunkGate cfg (sarathiNextNumPrefillTokens chunks)) σ =
      .ok (some σ')) :
    σ'.scheduled = σ.scheduled ∧ σ'.batchContainsPrefill = true := by
  cases admissionStep_turn h with
  | ignore => exact ⟨rfl, hprefill⟩
  | enter _ _ _ _ hgate =>
    have hclosed := (sarathiGate_eq_some hgate).1
    rw [hprefill] at hclosed
    cases hclosed

theorem sarathiAdmission_scheduled_eq {β : Type} [BlockSpaceManager β] {σ σ' : LoopState β}
    {chunks : ChunkSchedule} {fuel : Nat}
    (hprefill : σ.batchContainsPrefill)
    (h : iterate (admissionStep cfg now (chunkGate cfg (sarathiNextNumPrefillTokens chunks)))
      fuel σ = .ok σ') : σ'.scheduled = σ.scheduled := by
  have hboth := iterate_invariant
    (fun τ => τ.scheduled = σ.scheduled ∧ τ.batchContainsPrefill = true)
    (fun τ τ' hstep hτ => by
      obtain ⟨hsame, hstill⟩ := sarathiAdmission_of_prefill hτ.2 hstep
      exact ⟨hsame.trans hτ.1, hstill⟩)
    h ⟨rfl, hprefill⟩
  exact hboth.1

/-- **Sarathi admits at most one sequence** in a call, and passes over the head of the waiting
    list only to drop it. -/
theorem sarathiAdmission_cases {chunks : ChunkSchedule} {fuel : Nat}
    (h : iterate (admissionStep cfg now (chunkGate cfg (sarathiNextNumPrefillTokens chunks)))
      fuel σ = .ok σ') :
    σ'.scheduled = σ.scheduled ∨
      ∃ id chunkLen, σ'.scheduled = σ.scheduled ++ [⟨id, chunkLen⟩] ∧ id ∈ σ.waiting ∧
        (σ.objs id).getLen ≤ cfg.maxModelLen ∧
        σ.blockManager.canAllocate (σ.objs id) = true ∧
        ∀ front rest, σ.waiting = front :: rest → (σ.objs front).status ≠ .waiting →
          id = front := by
  -- the loop drops a few sequences, and stops at or after the first it admits
  induction fuel generalizing σ with
  | zero =>
    cases h
    exact .inl rfl
  | succ fuel ih =>
    rcases iterate_succ_eq_ok.mp h with ⟨-, rfl⟩ | ⟨τ, hstep, hrest⟩
    · exact .inl rfl
    have hsound := admissionStep_sound
      (chunkGate_sound fun _ _ _ => sarathiNextNumPrefillTokens_le) hstep
    cases hsound with
    | keep _ hvisits => cases hvisits
    | @ignore _ first rest hwaiting _ _ hstatus =>
      refine (ih hrest).imp_right ?_
      rintro ⟨id, chunkLen, hscheduled, hmem, hlen, hcan, -⟩
      -- dropping the head changes no length, so the later check is the one at the start
      have hsame := getLen_update_status σ.objs first .finishedIgnored id
      dsimp only at hlen hcan
      simp only [VAttentionBlockManager.canAllocate, VAttentionBlockManager.getNumBlocks,
        hsame] at hlen hcan
      refine ⟨id, chunkLen, hscheduled, hwaiting ▸ List.mem_cons_of_mem _ hmem, hlen, hcan, ?_⟩
      intro front rest' hfront hnot
      rw [hwaiting] at hfront
      cases hfront
      exact absurd hstatus hnot
    | @enter _ first rest _ chunkLen _ hwaiting _ hlen hcan =>
      -- a prompt is in the batch now: the rest of the loop admits nobody
      refine .inr ⟨first, chunkLen, sarathiAdmission_scheduled_eq (by rfl) hrest, ?_, hlen, hcan,
        ?_⟩
      · rw [hwaiting]
        exact List.mem_cons_self
      · intro front rest' hfront _
        rw [hwaiting] at hfront
        cases hfront
        rfl

/-! ## The policies -/

variable {objs : Heap} {s : SchedulerState VAttentionBlockManager}

theorem vllmSchedule_covered {maxNumBatchedTokens : Nat}
    (h : vllmSchedule cfg maxNumBatchedTokens now (s.start objs) = .ok σ') :
    Covered cfg objs s (scheduledIds σ'.scheduled) := by
  obtain ⟨σ₁, hadm, hrest⟩ := vllmSchedule_eq_ok h
  have hadmsteps := vllmAdmission_steps hadm
  have hstart : AdmittedInv s.blockManager objs s.running
      { s.start objs with
        blockManager := BlockSpaceManager.clearPromisedBlocks (s.start objs).blockManager } :=
    ⟨fun _ => rfl, rfl, rfl, rfl, Nat.zero_le _, fun _ => .inr⟩
  have hadmitted : AdmittedInv s.blockManager objs s.running σ₁ :=
    reflTransGen_invariant _ (fun _ _ hstep => hstep.admittedInv) hadmsteps hstart
  rcases hrest with rfl | ⟨hnone, -, hdecode⟩
  · exact .admitted (hadmitted.promised ▸ hadmitted.fits)
  · -- nothing has been admitted: the batch comes from the running sequences
    have hrunning : ∀ id ∈ σ₁.running, id ∈ s.running := by
      intro id hid
      simpa [hnone, scheduledIds] using hadmitted.running_eq id hid
    have hcomplete : σ₁.Complete := Complete.of_admission hadmsteps ⟨rfl, rfl⟩
    have hpre : σ₁.preempted = [] := phaseSteps_preempted_eq hadmsteps (by simp)
    have hvisit : VisitInv σ₁.objs σ₁.waiting s.running (σ₁.requeueRunning now) := by
      constructor
      case objs_eq => rfl
      case waiting_eq => simp [LoopState.requeueRunning, hpre]
      case pending =>
        exact fun id hid => hrunning id ((sortByPriority_perm now _ _).mem_iff.mp hid)
      case runningPrefills => simp [LoopState.requeueRunning, hcomplete.runningPrefills]
      case scheduled => simp [LoopState.requeueRunning, hnone, scheduledIds]
      case preempted => simp [LoopState.requeueRunning, hpre]
    have hfinal := reflTransGen_invariant _ (fun _ _ hstep => hstep.visitInv rfl)
      (decodeLoop_steps cfg now hdecode).1 hvisit
    exact .running hfinal.scheduled

/-- The decode loop over the running sequences, from the start of a call. -/
theorem decodeLoop_visitInv {β : Type} [BlockSpaceManager β] (cfg : SchedulerConfig)
    {policy : OnUnfinishedPrompt} {s : SchedulerState β} {blockManager : β} {σ₁ : LoopState β}
    (hdecode : visitPending (decodeStep policy) (LoopState.requeueRunning now
      { s.start objs with blockManager }) = .ok σ₁) :
    VisitInv objs s.waiting s.running σ₁ := by
  refine reflTransGen_invariant _ (fun _ _ hstep => hstep.visitInv rfl)
    (decodeLoop_steps cfg now hdecode).1 ?_
  refine ⟨rfl, rfl, fun id hid => (sortByPriority_perm now objs s.running).mem_iff.mp hid,
    ?_, ?_, ?_⟩ <;>
    simp [LoopState.requeueRunning, SchedulerState.start, scheduledIds]

/-- Sarathi's two loops over the running sequences, from the start of a call. -/
theorem sarathiLoops_visitInv {β : Type} [BlockSpaceManager β] (cfg : SchedulerConfig)
    {chunks : ChunkSchedule} {s : SchedulerState β} {σ₁ σ₂ : LoopState β}
    (hdecode : visitPending (decodeStep .setAside) (LoopState.requeueRunning now
      { s.start objs with
        blockManager := BlockSpaceManager.clearPromisedBlocks (s.start objs).blockManager }) =
      .ok σ₁)
    (hprefill : visitPending (sarathiPrefillStep chunks)
      { σ₁ with pending := σ₁.runningPrefills, runningPrefills := [] } = .ok σ₂) :
    VisitInv objs s.waiting s.running σ₁ ∧ VisitInv objs s.waiting s.running σ₂ := by
  have hvisit₁ := decodeLoop_visitInv cfg hdecode
  refine ⟨hvisit₁, ?_⟩
  refine reflTransGen_invariant _ (fun _ _ hstep => hstep.visitInv rfl)
    (sarathiPrefillLoop_steps cfg now hprefill).1 ?_
  exact ⟨hvisit₁.objs_eq, hvisit₁.waiting_eq, hvisit₁.runningPrefills, by simp,
    hvisit₁.scheduled, hvisit₁.preempted⟩

/-! ## Calls that evict -/

theorem vllmSchedule_batch_running {maxNumBatchedTokens : Nat}
    (h : vllmSchedule cfg maxNumBatchedTokens now (s.start objs) = .ok σ')
    (hevicts : σ'.preempted ≠ []) : ∀ id ∈ scheduledIds σ'.scheduled, id ∈ s.running := by
  obtain ⟨σ₁, hadm, hrest⟩ := vllmSchedule_eq_ok h
  have hadmsteps := vllmAdmission_steps hadm
  rcases hrest with rfl | ⟨hscheduled, hignored, hdecode⟩
  -- admission evicts nobody
  · exact absurd (phaseSteps_preempted_eq hadmsteps (by simp)) hevicts
  · obtain rfl := admission_eq_of_nil hadmsteps hscheduled hignored
    exact (decodeLoop_visitInv cfg hdecode).scheduled

theorem sarathiSchedule_batch_running {chunks : ChunkSchedule}
    (hpaused : ∀ id ∈ s.running, (objs id).isPaused = true)
    (h : sarathiSchedule cfg chunks now (s.start objs) = .ok σ') (hevicts : σ'.preempted ≠ []) :
    ∀ id ∈ scheduledIds σ'.scheduled, id ∈ s.running := by
  obtain ⟨σ₁, hdecode, hrest⟩ := seq_eq_ok.mp h
  obtain ⟨σ₂, hprefill, hadm⟩ := seq_eq_ok.mp hrest
  obtain ⟨-, hvisit₂⟩ := sarathiLoops_visitInv cfg hdecode hprefill
  rw [phaseSteps_preempted_eq (sarathiAdmission_steps hadm) (by simp)] at hevicts
  -- a victim is at the front of the waiting list, and it is paused
  obtain ⟨front, rest, hvictims⟩ :=
    List.exists_cons_of_ne_nil (List.reverse_ne_nil_iff.mpr hevicts)
  have hvictim : front ∈ s.running := by
    refine hvisit₂.preempted front ?_
    rw [← List.mem_reverse, hvictims]
    exact List.mem_cons_self
  have hstatus : (objs front).status ≠ .waiting := by
    have hself := hpaused front hvictim
    simp only [Sequence.isPaused, beq_iff_eq] at hself
    simp [hself]
  rcases sarathiAdmission_cases hadm with hsame | ⟨id, chunkLen, hsnoc, -, -, -, hfront⟩
  · rw [hsame]
    exact hvisit₂.scheduled
  -- nobody but the victim can be admitted
  · rw [hvisit₂.objs_eq, hvisit₂.waiting_eq] at hfront
    obtain rfl := hfront front (rest ++ s.waiting) (by rw [hvictims]; rfl) hstatus
    intro k hk
    rw [hsnoc, scheduledIds, List.map_append, List.mem_append] at hk
    rcases hk with hk | hk
    · exact hvisit₂.scheduled k hk
    · obtain rfl := List.mem_singleton.mp hk
      exact hvictim

/-- **A call that evicts serves running sequences only**, under the vLLM and the Sarathi
    scheduler. -/
theorem schedule_batch_running {objs' : Heap} {s' : SchedulerState VAttentionBlockManager}
    {out : SchedulerOutputs}
    (hpolicy : (∃ n, cfg.policy = .vllm n) ∨ ∃ chunks, cfg.policy = .sarathi chunks)
    (hpaused : ∀ id ∈ s.running, (objs id).isPaused = true)
    (h : schedule cfg now objs s = .ok (objs', s', out)) (hevicts : out.preemptedSeqIds ≠ []) :
    ∀ id ∈ out.batchIds, id ∈ s.running := by
  rcases schedule_eq_ok h with ⟨-, -, rfl⟩ | ⟨σ, turn, hrun, -, -, rfl⟩
  · exact absurd rfl hevicts
  · rcases hpolicy with ⟨n, hpolicy⟩ | ⟨chunks, hpolicy⟩
    · exact vllmSchedule_batch_running (runPolicy_vllm hpolicy hrun) hevicts
    · exact sarathiSchedule_batch_running hpaused (runPolicy_sarathi hpolicy hrun) hevicts

/-! ## The checks -/

theorem sarathiSchedule_covered {chunks : ChunkSchedule} (hpolicy : cfg.policy = .sarathi chunks)
    (hpaused : ∀ id ∈ s.running, (objs id).isPaused = true)
    (h : sarathiSchedule cfg chunks now (s.start objs) = .ok σ') :
    Covered cfg objs s (scheduledIds σ'.scheduled) := by
  by_cases hevicts : σ'.preempted = []
  case neg => exact .running (sarathiSchedule_batch_running hpaused h hevicts)
  obtain ⟨σ₁, hdecode, hrest⟩ := seq_eq_ok.mp h
  obtain ⟨σ₂, hprefill, hadm⟩ := seq_eq_ok.mp hrest
  obtain ⟨hdecodes, hempty⟩ := decodeLoop_steps cfg now hdecode
  obtain ⟨hprefills, -⟩ := sarathiPrefillLoop_steps cfg now hprefill
  obtain ⟨-, hvisit₂⟩ := sarathiLoops_visitInv cfg hdecode hprefill
  -- the decode loop has promised a block to every decode that needs one
  have hpromise : PromiseInv s.blockManager objs (nextBlocks s.blockManager objs s.running) σ₁ := by
    refine reflTransGen_invariant _ (fun _ _ hstep => hstep.promiseInv) hdecodes ?_
    refine ⟨rfl, rfl, rfl, fun _ => rfl, fun _ => ?_⟩
    exact (Nat.zero_add _).trans ((sortByPriority_perm now objs s.running).countP_eq _)
  have hmanager : σ₂.blockManager = σ₁.blockManager :=
    reflTransGen_invariant (fun σ => σ.blockManager = σ₁.blockManager)
      (fun _ _ hstep heq => hstep.blockManager_eq.trans heq) hprefills rfl
  have hnone₂ : σ₂.preempted = [] := by
    rw [phaseSteps_preempted_eq (sarathiAdmission_steps hadm) (by simp)] at hevicts
    exact hevicts
  have hnone₁ : σ₁.preempted = [] := (phaseSteps_preempted_eq hprefills (by simp)).symm.trans hnone₂
  -- admission
  rcases sarathiAdmission_cases hadm with hsame | ⟨id, chunkLen, hsnoc, hmem, hlen, hcan, -⟩
  · rw [hsame]
    exact .running hvisit₂.scheduled
  have hbatch : scheduledIds σ'.scheduled = scheduledIds σ₂.scheduled ++ [id] := by
    rw [hsnoc, scheduledIds, List.map_append]
    rfl
  rw [hvisit₂.objs_eq] at hlen hcan
  rw [hvisit₂.waiting_eq, hnone₂, List.reverse_nil, List.nil_append] at hmem
  have hpromised := hpromise.promised hnone₁
  rw [hempty] at hpromised
  -- nobody was evicted, so the promises are those of all running sequences
  refine .chunked hpolicy hbatch hvisit₂.scheduled hmem hlen ?_
  have hroom := of_decide_eq_true hcan
  rw [hmanager, VAttentionBlockManager.getNumBlocks, hpromise.blockSize, hpromise.watermark,
    hpromise.freeBlocks hnone₁] at hroom
  rw [← hpromised]
  exact hroom

/-- **The checks behind a batch** of the vLLM and the Sarathi scheduler. -/
theorem schedule_covered {objs' : Heap} {s' : SchedulerState VAttentionBlockManager}
    {out : SchedulerOutputs}
    (hpolicy : (∃ n, cfg.policy = .vllm n) ∨ ∃ chunks, cfg.policy = .sarathi chunks)
    (hpaused : ∀ id ∈ s.running, (objs id).isPaused = true)
    (h : schedule cfg now objs s = .ok (objs', s', out)) : Covered cfg objs s out.batchIds := by
  rcases schedule_eq_ok h with ⟨-, -, rfl⟩ | ⟨σ, turn, hrun, -, -, rfl⟩
  · exact .running (by simp [scheduledIds])
  · rcases hpolicy with ⟨n, hpolicy⟩ | ⟨chunks, hpolicy⟩
    · exact vllmSchedule_covered (runPolicy_vllm hpolicy hrun)
    · exact sarathiSchedule_covered hpolicy hpaused (runPolicy_sarathi hpolicy hrun)

end VAttention.Scheduler
