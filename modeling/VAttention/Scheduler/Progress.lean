import VAttention.Scheduler.Invariants

/-!
# When eviction helps

The decode loop evicts running sequences, youngest first, until the sequence at the front of
its queue gets a slot, and in the end evicts that sequence itself.  So a call of `schedule`
may evict and still return an empty batch.  It does not if the first sequence that needs a
slot gets one once all sequences behind it are gone (`schedule_progress`).
-/

namespace VAttention.Scheduler

open VAttention.Core VAttention.Lib Relation

variable {β : Type} [BlockSpaceManager β] {cfg : SchedulerConfig} {now : Time}
  {σ σ' : LoopState β} {phase : Phase}

/-! ## Starvation -/

/-- The block manager after evicting the given sequences, from the last to the first. -/
def evictAll (objs : Heap) (victims : List SeqId) (blockManager : β) : β :=
  victims.foldr (fun id bm =>
    BlockSpaceManager.enqueuePreempted (BlockSpaceManager.free bm id (objs id)) id) blockManager

/-- The first sequence of the queue whose prompt is processed gets no slot even without the
    sequences behind it. -/
def starvedQueue (objs : Heap) (blockManager : β) (queue : List SeqId) : Bool :=
  match queue.dropWhile fun id => !(objs id).promptProcessingFinished with
  | [] => false
  | id :: younger =>
    !BlockSpaceManager.canAppendSlot (evictAll objs younger blockManager) (objs id)

/-- `starvedQueue` for the queue that the decode loop of a policy visits. -/
def starved (cfg : SchedulerConfig) (now : Time) (objs : Heap) (s : SchedulerState β) : Bool :=
  starvedQueue objs (cfg.startManager s.blockManager) (sortByPriority now objs s.running)

/-- The same with sequences whose batch is still under way: the first sequence of the queue that
    asks for a slot, being paused with its prompt processed, gets none. -/
def stalledQueue (objs : Heap) (blockManager : β) (queue : List SeqId) : Bool :=
  match queue.dropWhile fun id => !((objs id).isPaused && (objs id).promptProcessingFinished) with
  | [] => false
  | id :: younger =>
    !BlockSpaceManager.canAppendSlot (evictAll objs younger blockManager) (objs id)

/-- `stalledQueue` for the queue that the decode loop of a policy visits. -/
def stalled (cfg : SchedulerConfig) (now : Time) (objs : Heap) (s : SchedulerState β) : Bool :=
  stalledQueue objs (cfg.startManager s.blockManager) (sortByPriority now objs s.running)

/-- Between two steps all running sequences are paused. -/
theorem stalledQueue_eq_starvedQueue {objs : Heap} {blockManager : β} {queue : List SeqId}
    (hpaused : ∀ id ∈ queue, (objs id).isPaused = true) :
    stalledQueue objs blockManager queue = starvedQueue objs blockManager queue := by
  have hsame : (queue.dropWhile fun id =>
      !((objs id).isPaused && (objs id).promptProcessingFinished)) =
      queue.dropWhile fun id => !(objs id).promptProcessingFinished := by
    induction queue with
    | nil => rfl
    | cons id rest ih =>
      rw [List.forall_mem_cons] at hpaused
      simp only [List.dropWhile_cons, hpaused.1, Bool.true_and, ih hpaused.2]
  rw [stalledQueue, starvedQueue, hsame]

/-! ## Monotonicity -/

/-- A batch only grows, except when a loop restarts with an empty one. -/
theorem SchedStep.scheduled_ne_nil (h : SchedStep cfg now phase σ σ') (hne : σ.scheduled ≠ []) :
    σ'.scheduled ≠ [] := by
  cases h with
  | keep | setAside | preempt | ignore | requeue | takePrefills => exact hne
  | decode | orcaDecode | enter => simp
  | prefill => simp [schedulePrefill]

/-- Only the decode loop evicts. -/
theorem SchedStep.preempted_eq (h : SchedStep cfg now phase σ σ')
    (hphase : ∀ policy, phase ≠ .decoding policy) : σ'.preempted = σ.preempted := by
  cases h with
  | keep | ignore | requeue | takePrefills | orcaDecode | enter | prefill => rfl
  | setAside => exact absurd rfl (hphase .setAside)
  | @decode policy | @preempt policy => exact absurd rfl (hphase policy)

theorem phaseSteps_scheduled_ne_nil (h : ReflTransGen (SchedStep cfg now phase) σ σ')
    (hne : σ.scheduled ≠ []) : σ'.scheduled ≠ [] :=
  reflTransGen_invariant (fun σ => σ.scheduled ≠ []) (fun _ _ hstep => hstep.scheduled_ne_nil) h hne

theorem phaseSteps_preempted_eq (h : ReflTransGen (SchedStep cfg now phase) σ σ')
    (hphase : ∀ policy, phase ≠ .decoding policy) : σ'.preempted = σ.preempted :=
  reflTransGen_invariant (fun τ => τ.preempted = σ.preempted)
    (fun _ _ hstep heq => (hstep.preempted_eq hphase).trans heq) h rfl

/-! ## The decode loop -/

/-- Invariant of a decode loop that will schedule: the batch has an entry, or the first
    sequence to ask for a slot is still queued and will get one. -/
def DecodeReady (objs : Heap) (σ : LoopState β) : Prop :=
  σ.objs = objs ∧
    (σ.scheduled ≠ [] ∨
      ∃ older id younger, σ.pending = older ++ id :: younger ∧
        (∀ a ∈ older, ¬ Decodable (objs a)) ∧ Decodable (objs id) ∧
        BlockSpaceManager.canAppendSlot (evictAll objs younger σ.blockManager) (objs id) = true)

theorem SchedStep.decodeReady {policy : OnUnfinishedPrompt} {objs : Heap}
    (hstep : SchedStep cfg now (.decoding policy) σ σ') (h : DecodeReady objs σ) :
    DecodeReady objs σ' := by
  obtain ⟨rfl, hne | ⟨older, id, younger, hqueue, holder, hready, hcan⟩⟩ := h
  · refine ⟨?_, .inl (hstep.scheduled_ne_nil hne)⟩
    cases hstep <;> rfl
  · cases hstep with
    -- a turn that passes over the front of the queue passes over an older sequence
    | @keep _ _ a rest hpending _ hdecode =>
      refine ⟨rfl, .inr ?_⟩
      rw [hpending] at hqueue
      cases older with
      | nil =>
        cases hqueue
        exact absurd hready (hdecode policy rfl)
      | cons b older =>
        cases hqueue
        exact ⟨older, id, younger, rfl, fun a ha => holder a (List.mem_cons_of_mem _ ha), hready,
          hcan⟩
    | @setAside _ a rest hpending hprompt =>
      refine ⟨rfl, .inr ?_⟩
      rw [hpending] at hqueue
      cases older with
      | nil =>
        cases hqueue
        rw [hready.2] at hprompt
        cases hprompt
      | cons b older =>
        cases hqueue
        exact ⟨older, id, younger, rfl, fun a ha => holder a (List.mem_cons_of_mem _ ha), hready,
          hcan⟩
    | decode => exact ⟨rfl, .inl (by simp)⟩
    | @preempt _ _ front victim rest hpending hfront hfrontReady hfrontCan =>
      refine ⟨rfl, .inr ?_⟩
      rw [hqueue] at hpending hfront
      cases older with
      | cons b older =>
        -- the front of the queue is a sequence the loop passes over
        obtain rfl : b = front := Option.some.inj hfront
        exact absurd hfrontReady (holder b List.mem_cons_self)
      | nil =>
        obtain rfl : id = front := Option.some.inj hfront
        rcases List.eq_nil_or_concat younger with rfl | ⟨younger, last, rfl⟩
        · -- alone and without a slot
          rw [show evictAll σ.objs [] σ.blockManager = σ.blockManager from rfl, hfrontCan] at hcan
          cases hcan
        · rw [List.concat_eq_append, List.nil_append, ← List.cons_append] at hpending
          obtain ⟨rfl, hlast⟩ := List.append_inj' hpending rfl
          cases hlast
          -- one sequence fewer is left to be evicted for the same slot
          refine ⟨[], id, younger, rfl, by simp, hready, ?_⟩
          rw [List.concat_eq_append, evictAll, List.foldr_append] at hcan
          exact hcan

/-- A queue that is not stalled has nobody to ask for a slot, or is ready. -/
theorem decodeReady_or_of_not_stalled
    (hstalled : stalledQueue σ.objs σ.blockManager σ.pending = false) :
    DecodeReady σ.objs σ ∨ ∀ id ∈ σ.pending, ¬ Decodable (σ.objs id) := by
  set asks : SeqId → Bool := fun id =>
    (σ.objs id).isPaused && (σ.objs id).promptProcessingFinished with hasks
  have hiff : ∀ id, asks id = true ↔ Decodable (σ.objs id) := fun id => by
    simp [hasks, Decodable]
  have hsplit := List.takeWhile_append_dropWhile (p := fun id => !asks id) (l := σ.pending)
  have hfront := List.all_takeWhile (p := fun id => !asks id) (l := σ.pending)
  rw [List.all_eq_true] at hfront
  have hnot : ∀ id ∈ σ.pending.takeWhile fun id => !asks id, ¬ Decodable (σ.objs id) := by
    intro id hid hready
    have hpass := hfront id hid
    rw [(hiff id).mpr hready] at hpass
    cases hpass
  -- the queue splits at the first sequence that asks
  unfold stalledQueue at hstalled
  split at hstalled
  · rename_i hnil
    rw [hnil, List.append_nil] at hsplit
    rw [hsplit] at hnot
    exact .inr hnot
  · rename_i id younger hcons
    rw [hcons] at hsplit
    refine .inl ⟨rfl, .inr ⟨_, id, younger, hsplit.symm, hnot, ?_, by simpa using hstalled⟩⟩
    have hhead := List.head?_dropWhile_not (fun id => !asks id) σ.pending
    rw [hcons] at hhead
    exact (hiff id).mp (by simpa using hhead)

/-- A queue that is not starved has nobody to ask for a slot, or is ready. -/
theorem decodeReady_or_of_not_starved
    (hpaused : ∀ id ∈ σ.pending, (σ.objs id).isPaused = true)
    (hstarved : starvedQueue σ.objs σ.blockManager σ.pending = false) :
    DecodeReady σ.objs σ ∨ ∀ id ∈ σ.pending, (σ.objs id).promptProcessingFinished = false := by
  rw [← stalledQueue_eq_starvedQueue hpaused] at hstarved
  refine (decodeReady_or_of_not_stalled hstarved).imp_right fun hnot id hid => ?_
  cases hprompt : (σ.objs id).promptProcessingFinished with
  | false => rfl
  | true => exact absurd ⟨hpaused id hid, hprompt⟩ (hnot id hid)

theorem DecodeReady.scheduled_ne_nil {policy : OnUnfinishedPrompt} {objs : Heap}
    (hready : DecodeReady objs σ)
    (h : ReflTransGen (SchedStep cfg now (.decoding policy)) σ σ') (hdone : σ'.pending = []) :
    σ'.scheduled ≠ [] := by
  have hend := reflTransGen_invariant (DecodeReady objs) (fun _ _ hstep => hstep.decodeReady) h
    hready
  rcases hend.2 with hne | ⟨older, id, younger, hqueue, -⟩
  · exact hne
  · simp [hdone] at hqueue

/-- A decode loop in which nobody asks for a slot only moves its queue. -/
theorem decodeLoop_of_not_decodable {policy : OnUnfinishedPrompt}
    (hnot : ∀ id ∈ σ.pending, ¬ Decodable (σ.objs id))
    (h : ReflTransGen (SchedStep cfg now (.decoding policy)) σ σ') :
    ∃ pending running runningPrefills, σ' = { σ with pending, running, runningPrefills } ∧
      pending ⊆ σ.pending := by
  induction h with
  | refl => exact ⟨_, _, _, rfl, List.Subset.refl _⟩
  | tail _ hlast ih =>
    obtain ⟨pending, running, prefills, rfl, hsub⟩ := ih
    -- only two kinds of turns are left
    cases hlast with
    | keep hpending | setAside hpending =>
      cases hpending
      exact ⟨_, _, _, rfl, fun a ha => hsub (List.mem_cons_of_mem _ ha)⟩
    | decode hpending hready =>
      cases hpending
      exact absurd hready (hnot _ (hsub List.mem_cons_self))
    | preempt _ hfront hready =>
      exact absurd hready (hnot _ (hsub (List.mem_of_mem_head? hfront)))

/-- A decode loop that is not stalled and evicts has an entry in its batch. -/
theorem decodeLoop_progress {policy : OnUnfinishedPrompt} (hnone : σ.preempted = [])
    (hstalled : stalledQueue σ.objs σ.blockManager σ.pending = false)
    (h : ReflTransGen (SchedStep cfg now (.decoding policy)) σ σ') (hdone : σ'.pending = []) :
    σ'.scheduled ≠ [] ∨ σ'.preempted = [] := by
  rcases decodeReady_or_of_not_stalled hstalled with hready | hnot
  · exact .inl (hready.scheduled_ne_nil h hdone)
  · obtain ⟨_, _, _, rfl, -⟩ := decodeLoop_of_not_decodable hnot h
    exact .inr hnone

/-! ## Phases that did nothing -/

/-- Admission that admits and drops nothing has not changed anything. -/
theorem admission_eq_of_nil (h : ReflTransGen (SchedStep cfg now .admission) σ σ')
    (hscheduled : σ'.scheduled = []) (hignored : σ'.ignored = []) : σ' = σ := by
  rcases ReflTransGen.cases_tail h with heq | ⟨τ, -, hlast⟩
  · exact heq
  · -- the last turn has extended one of the two lists
    cases hlast with
    | keep _ hvisits => cases hvisits
    | ignore => simp at hignored
    | enter => simp at hscheduled

/-- What the prefill loop leaves alone. -/
theorem prefilling_frame (h : ReflTransGen (SchedStep cfg now .prefilling) σ σ') :
    σ'.objs = σ.objs ∧ σ'.waiting = σ.waiting ∧ σ'.blockManager = σ.blockManager := by
  induction h with
  | refl => exact ⟨rfl, rfl, rfl⟩
  | tail _ hlast ih =>
    cases hlast with
    | keep | prefill => exact ih

/-- A prefill loop that schedules nothing only moves its queue to `running`, in order. -/
theorem prefilling_eq_of_nil (h : ReflTransGen (SchedStep cfg now .prefilling) σ σ')
    (hscheduled : σ'.scheduled = []) :
    ∃ pending running, σ' = { σ with pending, running } ∧
      running ++ pending = σ.running ++ σ.pending := by
  induction h with
  | refl => exact ⟨_, _, rfl, rfl⟩
  | tail _ hlast ih =>
    cases hlast with
    | @keep _ _ id rest hpending =>
      obtain ⟨pending, running, rfl, hlists⟩ := ih hscheduled
      obtain rfl : pending = id :: rest := hpending
      refine ⟨_, _, rfl, ?_⟩
      rw [← hlists, List.append_assoc, List.singleton_append]
    | prefill => simp [schedulePrefill] at hscheduled

/-! ## The policies -/

/-- A policy ending in `σ'` has evicted in one decode loop, over all running sequences and before
    anything else had changed.  Only Sarathi goes on after it, without evicting. -/
def EvictsInOneLoop (cfg : SchedulerConfig) (now : Time) (objs : Heap) (blockManager : β)
    (queue : List SeqId) (σ' : LoopState β) : Prop :=
  ∃ policy σ₁ σ₂, ReflTransGen (SchedStep cfg now (.decoding policy)) σ₁ σ₂ ∧
    σ₁.objs = objs ∧ σ₁.blockManager = blockManager ∧ σ₁.pending = queue ∧ σ₁.preempted = [] ∧
    σ₂.pending = [] ∧ σ'.preempted = σ₂.preempted ∧ (σ₂.scheduled ≠ [] → σ'.scheduled ≠ []) ∧
    (σ' = σ₂ ∨ ∃ chunks, cfg.policy = .sarathi chunks)

section Policies

variable (hnone : σ.preempted = [])

include hnone

theorem vllmSchedule_evicts {maxNumBatchedTokens : Nat}
    (h : vllmSchedule cfg maxNumBatchedTokens now σ = .ok σ') :
    σ'.preempted = [] ∨ EvictsInOneLoop cfg now σ.objs
      (BlockSpaceManager.clearPromisedBlocks σ.blockManager)
      (sortByPriority now σ.objs σ.running) σ' := by
  obtain ⟨σ₁, hadm, hrest⟩ := vllmSchedule_eq_ok h
  have hsteps := vllmAdmission_steps hadm
  rcases hrest with rfl | ⟨hscheduled, hignored, hdecode⟩
  · exact .inl ((phaseSteps_preempted_eq hsteps (by simp)).trans hnone)
  · obtain rfl := admission_eq_of_nil hsteps hscheduled hignored
    obtain ⟨hdecode, hdone⟩ := decodeLoop_steps cfg now hdecode
    exact .inr ⟨_, _, _, hdecode, rfl, rfl, rfl, hnone, hdone, rfl, id, .inl rfl⟩

theorem sarathiSchedule_evicts {chunks : ChunkSchedule} (hpolicy : cfg.policy = .sarathi chunks)
    (h : sarathiSchedule cfg chunks now σ = .ok σ') :
    EvictsInOneLoop cfg now σ.objs (BlockSpaceManager.clearPromisedBlocks σ.blockManager)
      (sortByPriority now σ.objs σ.running) σ' := by
  obtain ⟨σ₁, hdecode, h⟩ := seq_eq_ok.mp h
  obtain ⟨σ₂, hprefill, h⟩ := seq_eq_ok.mp h
  obtain ⟨hdecode, hdone⟩ := decodeLoop_steps cfg now hdecode
  have hprefill := sarathiPrefillLoop_steps cfg now hprefill
  have hadm := sarathiAdmission_steps h
  refine ⟨_, _, _, hdecode, rfl, rfl, rfl, hnone, hdone, ?_, fun hne => ?_, .inr ⟨_, hpolicy⟩⟩
  -- the other two loops evict nobody and add to the batch
  · rw [phaseSteps_preempted_eq hadm (by simp), phaseSteps_preempted_eq hprefill.1 (by simp)]
  · apply phaseSteps_scheduled_ne_nil hadm
    exact phaseSteps_scheduled_ne_nil hprefill.1 (by exact hne)

theorem SimpleRun.evicts {chunkSize : Nat} (h : SimpleRun cfg chunkSize now σ σ') :
    σ'.preempted = [] ∨ EvictsInOneLoop cfg now σ.objs σ.blockManager
      (sortByPriority now σ.objs σ.running) σ' := by
  -- the loops before the decodes evict nobody
  have hfirst : ∀ {σ₁}, visitPending (simplePrefillStep chunkSize) (σ.requeueRunning now) = .ok σ₁ →
      σ₁.preempted = [] := fun hprefill =>
    (phaseSteps_preempted_eq (simplePrefillLoop_steps cfg now hprefill).1 (by simp)).trans hnone
  cases h with
  | decodes hdecode =>
    obtain ⟨hdecode, hdone⟩ := decodeLoop_steps cfg now hdecode
    exact .inr ⟨_, _, _, hdecode, rfl, rfl, rfl, hnone, hdone, rfl, id, .inl rfl⟩
  | prefills hprefill => exact .inl (hfirst hprefill)
  | admits hprefill hadm =>
    have hadm := simpleAdmission_steps hadm
    exact .inl ((phaseSteps_preempted_eq hadm (by simp)).trans (hfirst hprefill))
  | @passes σ₁ σ₂ hprefill hadm hscheduled hignored hdecode =>
    have hpre := hfirst hprefill
    have hprefill := simplePrefillLoop_steps cfg now hprefill
    obtain rfl := admission_eq_of_nil (simpleAdmission_steps hadm) hscheduled hignored
    obtain ⟨pending, running, rfl, hlists⟩ := prefilling_eq_of_nil hprefill.1 hscheduled
    have hrunning : running = sortByPriority now σ.objs σ.running := by
      obtain rfl : pending = [] := hprefill.2
      simpa [LoopState.requeueRunning] using hlists
    obtain ⟨hdecode, hdone⟩ := decodeLoop_steps cfg now hdecode
    exact .inr ⟨_, _, _, hdecode, rfl, rfl, hrunning, hpre, hdone, rfl, id, .inl rfl⟩

end Policies

/-- Orca and FasterTransformer evict nobody. -/
theorem orcaSteps_preempted_eq (cfg : SchedulerConfig) (now : Time) {τ : LoopState β}
    (horca : visitPending orcaStep { σ with pending := σ.running, running := [] } = .ok τ)
    (hadm : ReflTransGen (SchedStep cfg now .admission) τ σ') : σ'.preempted = σ.preempted := by
  have horca := orcaLoop_steps cfg now horca
  rw [phaseSteps_preempted_eq hadm (by simp), phaseSteps_preempted_eq horca.1 (by simp)]

theorem runPolicy_evicts {turn turn' : Turn} (hnone : σ.preempted = [])
    (h : runPolicy cfg now turn σ = .ok (σ', turn')) :
    σ'.preempted = [] ∨ EvictsInOneLoop cfg now σ.objs (cfg.startManager σ.blockManager)
      (sortByPriority now σ.objs σ.running) σ' := by
  unfold SchedulerConfig.startManager
  cases runPolicy_run h with
  | vllm hpolicy h =>
    rw [hpolicy]
    exact vllmSchedule_evicts hnone h
  | sarathi hpolicy h =>
    rw [hpolicy]
    exact .inr (sarathiSchedule_evicts hnone hpolicy h)
  | simpleChunking hpolicy h =>
    rw [hpolicy]
    exact h.evicts hnone
  | orca _ horca hadm =>
    refine .inl (.trans ?_ hnone)
    rcases hadm with rfl | hadm
    · exact orcaSteps_preempted_eq cfg now horca .refl
    · exact orcaSteps_preempted_eq cfg now horca (orcaAdmission_steps hadm)

/-- **All evictions of a call happen in one decode loop**, whatever the policy. -/
theorem schedule_evicts {objs objs' : Heap} {s s' : SchedulerState β} {out : SchedulerOutputs}
    (h : schedule cfg now objs s = .ok (objs', s', out)) :
    out.preemptedSeqIds = [] ∨ ∃ σ, out = σ.outputs ∧ s'.waiting = σ.waiting ∧
      EvictsInOneLoop cfg now objs (cfg.startManager s.blockManager)
        (sortByPriority now objs s.running) σ := by
  rcases schedule_eq_ok h with ⟨-, -, rfl⟩ | ⟨σ, turn, hrun, -, rfl, rfl⟩
  · exact .inl rfl
  · exact (runPolicy_evicts rfl hrun).imp id fun hloop => ⟨σ, rfl, rfl, hloop⟩

/-- **Eviction fills the batch**: if the queue is not stalled, a call of `schedule` that evicts
    does not return an empty batch. -/
theorem schedule_progress_of_not_stalled {objs objs' : Heap} {s s' : SchedulerState β}
    {out : SchedulerOutputs} (hstalled : stalled cfg now objs s = false)
    (h : schedule cfg now objs s = .ok (objs', s', out)) :
    out.isEmpty = false ∨ out.preemptedSeqIds = [] := by
  rcases schedule_evicts h with hnone | ⟨σ, rfl, -, hloop⟩
  · exact .inr hnone
  · obtain ⟨policy, σ₁, σ₂, hsteps, rfl, hmanager, hqueue, hnone, hdone, hpre, hbatch, -⟩ := hloop
    -- the loop that evicts has an entry in its batch, and a batch only grows
    have hprogress : σ₂.scheduled ≠ [] ∨ σ₂.preempted = [] := by
      refine decodeLoop_progress hnone ?_ hsteps hdone
      rw [hmanager, hqueue]
      exact hstalled
    rcases hprogress with hne | hnil
    · have hfilled := hbatch hne
      exact .inl (by simpa [LoopState.outputs, SchedulerOutputs.isEmpty] using hfilled)
    · exact .inr (hpre.trans hnil)

/-- Eviction fills the batch if all running sequences are paused and the queue is not starved. -/
theorem schedule_progress {objs objs' : Heap} {s s' : SchedulerState β} {out : SchedulerOutputs}
    (hpaused : ∀ id ∈ s.running, (objs id).isPaused = true)
    (hstarved : starved cfg now objs s = false)
    (h : schedule cfg now objs s = .ok (objs', s', out)) :
    out.isEmpty = false ∨ out.preemptedSeqIds = [] := by
  refine schedule_progress_of_not_stalled ?_ h
  have hqueue : ∀ id ∈ sortByPriority now objs s.running, (objs id).isPaused = true :=
    fun id hid => hpaused id ((sortByPriority_perm now _ _).mem_iff.mp hid)
  rw [stalled, stalledQueue_eq_starvedQueue hqueue]
  exact hstarved

/-! ## The oldest sequence -/

/-- The oldest running sequence gets a slot, if need be by evicting all others, or does not ask
    for one: its prompt is not processed yet.  Sequences that have reached `max_model_len` are not
    considered. -/
def oldestServed (cfg : SchedulerConfig) (now : Time) (objs : Heap) (s : SchedulerState β) : Bool :=
  match sortByPriority now objs s.running with
  | [] => true
  | id :: younger =>
    !(objs id).promptProcessingFinished || decide (cfg.maxModelLen ≤ (objs id).getLen) ||
      BlockSpaceManager.canAppendSlot
        (evictAll objs younger (cfg.startManager s.blockManager)) (objs id)

/-- Invariant of a decode loop that keeps the sequence `id`: it has been visited, or it is at the
    front of the queue and will get its slot. -/
structure Spared (objs : Heap) (id : SeqId) (σ : LoopState β) : Prop where
  objs_eq : σ.objs = objs
  preempted : id ∉ σ.preempted
  queue : id ∉ σ.pending ∨ ∃ younger, σ.pending = id :: younger ∧ id ∉ younger ∧
    (Decodable (objs id) →
      BlockSpaceManager.canAppendSlot (evictAll objs younger σ.blockManager) (objs id) = true)

/-- Visiting the front of the queue. -/
theorem Spared.notMem_rest {objs : Heap} {id front : SeqId} {rest : List SeqId}
    (h : Spared objs id σ) (hpending : σ.pending = front :: rest) : id ∉ rest := by
  rcases h.queue with hnot | ⟨younger, hqueue, hnot, -⟩
  · rw [hpending] at hnot
    exact fun hid => hnot (List.mem_cons_of_mem _ hid)
  · rw [hpending] at hqueue
    cases hqueue
    exact hnot

theorem SchedStep.spared {policy : OnUnfinishedPrompt} {objs : Heap} {id : SeqId}
    (hstep : SchedStep cfg now (.decoding policy) σ σ') (h : Spared objs id σ) :
    Spared objs id σ' := by
  cases hstep with
  -- the sequence at the front is visited, so it leaves the queue for good
  | keep hpending | setAside hpending | decode hpending =>
    exact ⟨h.objs_eq, h.preempted, .inl (h.notMem_rest hpending)⟩
  | @preempt _ _ front victim rest hpending hfront hready hcan =>
    rcases h.queue with hnot | ⟨younger, hqueue, hnot, hslot⟩
    · rw [hpending, List.mem_append, List.mem_singleton, not_or] at hnot
      refine ⟨h.objs_eq, ?_, .inl hnot.1⟩
      simpa [h.preempted] using hnot.2
    · -- the front asks for a slot and does not get one, so somebody is behind it
      rw [hqueue] at hpending hfront
      obtain rfl : id = front := Option.some.inj hfront
      rw [h.objs_eq] at hready hcan
      have hslot := hslot hready
      rcases List.eq_nil_or_concat younger with rfl | ⟨younger, last, rfl⟩
      · rw [show evictAll objs [] σ.blockManager = σ.blockManager from rfl, hcan] at hslot
        cases hslot
      · rw [List.concat_eq_append, ← List.cons_append] at hpending
        obtain ⟨rfl, hlast⟩ := List.append_inj' hpending rfl
        cases hlast
        rw [List.concat_eq_append, List.mem_append, List.mem_singleton, not_or] at hnot
        refine ⟨h.objs_eq, ?_, .inr ⟨younger, rfl, hnot.1, fun _ => ?_⟩⟩
        · simpa [h.preempted] using hnot.2
        · rw [List.concat_eq_append, evictAll, List.foldr_append] at hslot
          rw [h.objs_eq]
          exact hslot

/-- **The oldest sequence stays**: if it is served, a call of `schedule` does not evict it. -/
theorem schedule_spares_oldest {objs objs' : Heap} {s s' : SchedulerState β}
    {out : SchedulerOutputs} {id : SeqId} (hnodup : s.running.Nodup)
    (holdest : (sortByPriority now objs s.running).head? = some id)
    (hshort : (objs id).getLen < cfg.maxModelLen) (hserved : oldestServed cfg now objs s = true)
    (h : schedule cfg now objs s = .ok (objs', s', out)) : id ∉ out.preemptedSeqIds := by
  rcases schedule_evicts h with hnone | ⟨σ, rfl, -, hloop⟩
  · simp [hnone]
  · obtain ⟨policy, σ₁, σ₂, hsteps, hobjs, hmanager, hqueue, hnone, -, hpre, -⟩ := hloop
    -- the oldest sequence is at the front of the queue when the loop starts
    have hstart : Spared objs id σ₁ := by
      refine ⟨hobjs, by simp [hnone], .inr ?_⟩
      obtain ⟨younger, hcons⟩ := List.head?_eq_some_iff.mp holdest
      have hall := (sortByPriority_perm now objs s.running).nodup_iff.mpr hnodup
      rw [hcons, List.nodup_cons] at hall
      refine ⟨younger, hqueue.trans hcons, hall.1, fun hready => ?_⟩
      rw [hmanager]
      unfold oldestServed at hserved
      rw [hcons] at hserved
      simpa [hready.2, Nat.not_le.mpr hshort] using hserved
    have hend := reflTransGen_invariant (Spared objs id) (fun _ _ hstep => hstep.spared) hsteps
      hstart
    change id ∉ σ.preempted
    rw [hpre]
    exact hend.preempted

end VAttention.Scheduler
