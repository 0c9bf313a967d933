import VAttention.Scheduler.Productive

/-!
# Dropping a waiting sequence with nothing to run

The admission loop drops a waiting sequence that is longer than `max_model_len`.  Whether the
same call also fills its batch depends on the policy and on the rest of the state.
`rejectsAlone` says when it does not, and in every other state a call that drops a sequence
returns a batch as well (`schedule_ignored_or_batch`).

The delicate case is an eviction before the admission loop (Sarathi): the head of the waiting
list is then a paused victim, which the loop admits or leaves alone but does not drop.
-/

namespace VAttention.Scheduler

open VAttention.Core VAttention.Lib Relation

variable {β : Type} [BlockSpaceManager β] {cfg : SchedulerConfig} {now : Time}
  {σ σ' : LoopState β} {phase : Phase}

/-! ## The condition -/

/-- A waiting sequence that the admission loop drops when it gets to it. -/
def tooLong (cfg : SchedulerConfig) (now : Time) (objs : Heap) (id : SeqId) : Bool :=
  (objs id).arrivalTime ≤ now && cfg.maxModelLen < (objs id).getLen

/-- The waiting list once the over-long sequences at its front are dropped. -/
def afterDropped (cfg : SchedulerConfig) (now : Time) (objs : Heap) (waiting : List SeqId) :
    List SeqId :=
  waiting.dropWhile (tooLong cfg now objs)

/-- The head of the waiting list, if there is one, gets a chunk in an empty batch. -/
def nextGetsChunk (chunks : ChunkSchedule) (objs : Heap) (waiting : List SeqId) : Bool :=
  waiting.head?.all fun id => getsChunk chunks (objs id)

theorem nextGetsChunk_head {chunks : ChunkSchedule} {objs : Heap} {waiting : List SeqId}
    (h : nextGetsChunk chunks objs waiting = true) {id : SeqId} (hid : id ∈ waiting.head?) :
    getsChunk chunks (objs id) = true := by
  rw [nextGetsChunk, Option.mem_def.mp hid] at h
  exact h

/-- The call drops the head of the waiting list, and there is nothing to fill the batch with:
    vLLM can admit nobody after it; Orca and FasterTransformer have nothing running either; nor
    does Sarathi decode or go on with a prompt; and simple chunking is in its prefill turn, with
    no running prompt to go on with. -/
def rejectsAlone (cfg : SchedulerConfig) (now : Time) (objs : Heap) (s : SchedulerState β) : Bool :=
  let next := afterDropped cfg now objs s.waiting
  let admissible := headAdmissible cfg now objs (cfg.startManager s.blockManager) next s.running
  headTooLong cfg now objs s.waiting &&
  match cfg.policy with
  | .vllm _ => !admissible
  | .orca | .fasterTransformer => s.running.isEmpty && !admissible
  | .sarathi chunks =>
    !(s.running.any fun id =>
      (objs id).promptProcessingFinished || getsChunk chunks (objs id)) &&
    !(admissible && nextGetsChunk chunks objs next)
  | .simpleChunking chunkSize =>
    s.whoseTurn == .prefill &&
    !(s.running.any fun id =>
      !(objs id).promptProcessingFinished && getsChunk (.fixed chunkSize) (objs id)) &&
    !(admissible && nextGetsChunk (.fixed chunkSize) objs next)

/-! ## The admission loop -/

/-- Dropping a sequence changes its status only. -/
theorem tooLong_update_status (objs : Heap) (id : SeqId) (status : SequenceStatus) :
    tooLong cfg now (Function.update objs id { objs id with status }) = tooLong cfg now objs := by
  funext a
  by_cases ha : a = id
  · subst ha
    rw [tooLong, tooLong, Function.update_self]
    rfl
  · simp [tooLong, Function.update_of_ne ha]

theorem headAdmissible_congr {objs objs' : Heap} {blockManager : β} {waiting running : List SeqId}
    (h : ∀ id ∈ waiting.head?, objs' id = objs id) :
    headAdmissible cfg now objs' blockManager waiting running =
      headAdmissible cfg now objs blockManager waiting running := by
  cases waiting with
  | nil => rfl
  | cons id rest => simp only [headAdmissible, h id rfl]

/-- A turn at an over-long head that goes on drops it. -/
theorem admissionStep_tooLong {id : SeqId} {rest : List SeqId}
    {gate : LoopState β → Sequence → Except PyError (Option Admission)}
    (hwaiting : σ.waiting = id :: rest) (hlong : tooLong cfg now σ.objs id = true)
    {next : Option (LoopState β)} (h : admissionStep cfg now gate σ = .ok next) :
    next = some { σ with
      objs := Function.update σ.objs id { σ.objs id with status := .finishedIgnored }
      waiting := rest
      ignored := σ.ignored ++ [id] } := by
  simp only [tooLong, Bool.and_eq_true, decide_eq_true_eq] at hlong
  simp only [admissionStep, hwaiting, if_neg (not_lt.mpr hlong.1), if_pos hlong.2] at h
  obtain ⟨seq, hstatus, h⟩ := seq_eq_ok.mp h
  obtain ⟨-, rfl⟩ := setStatus_finishedIgnored hstatus
  cases h
  rfl

/-- The loop drops the over-long sequences at the front and admits the one after them, if that
    one is admissible and passes the gate. -/
theorem admitWaiting_of_nextAdmissible
    {gate : LoopState β → Sequence → Except PyError (Option Admission)} (hgate : GateSound gate)
    (hnodup : σ.waiting.Nodup)
    (hnext : headAdmissible cfg now σ.objs σ.blockManager
      (afterDropped cfg now σ.objs σ.waiting) σ.running = true)
    (hpass : ∀ τ : LoopState β, τ.running = σ.running →
      τ.numBatchedTokens = σ.numBatchedTokens →
      τ.batchContainsPrefill = σ.batchContainsPrefill →
      ∀ id ∈ (afterDropped cfg now σ.objs σ.waiting).head?,
        (σ.objs id).getLen ≤ cfg.maxModelLen → σ.running.length < cfg.maxNumSeqs →
        gate τ (σ.objs id) ≠ .ok none)
    (h : admitWaiting cfg now gate σ = .ok σ') : σ'.scheduled ≠ [] := by
  generalize hwaiting : σ.waiting = waiting at hnodup hnext hpass
  induction waiting generalizing σ with
  | nil => simp [afterDropped, headAdmissible] at hnext
  | cons id rest ih =>
    cases hlong : tooLong cfg now σ.objs id with
    | false =>
      have hafter : afterDropped cfg now σ.objs (id :: rest) = σ.waiting := by
        rw [afterDropped, List.dropWhile_cons_of_neg (by simp [hlong]), hwaiting]
      rw [hafter] at hnext hpass
      exact admitWaiting_of_admissible hgate hnext (hpass σ rfl rfl rfl) h
    | true =>
      have hafter : afterDropped cfg now σ.objs (id :: rest) =
          afterDropped cfg now σ.objs rest := by
        rw [afterDropped, List.dropWhile_cons_of_pos hlong, afterDropped]
      rw [hafter] at hnext hpass
      rw [List.nodup_cons] at hnodup
      rw [admitWaiting, hwaiting, List.length_cons, iterate_succ_eq_ok] at h
      rcases h with ⟨hstop, -⟩ | ⟨τ, hstep, hrest⟩
      · cases admissionStep_tooLong hwaiting hlong hstop
      · cases admissionStep_tooLong hwaiting hlong hstep
        -- the sequence admitted in the end is another one, whose object has not changed
        have hsame : ∀ a ∈ (afterDropped cfg now σ.objs rest).head?,
            Function.update σ.objs id { σ.objs id with status := .finishedIgnored } a =
              σ.objs a := by
          intro a ha
          have hmem : a ∈ rest := (List.dropWhile_sublist _).mem (List.mem_of_mem_head? ha)
          refine Function.update_of_ne ?_ _ _
          rintro rfl
          exact hnodup.1 hmem
        have hrest : admitWaiting cfg now gate { σ with
            objs := Function.update σ.objs id { σ.objs id with status := .finishedIgnored }
            waiting := rest
            ignored := σ.ignored ++ [id] } = .ok σ' := hrest
        refine ih hrest rfl hnodup.2 ?_ ?_
        · dsimp only
          rw [afterDropped, tooLong_update_status]
          rw [← afterDropped, headAdmissible_congr hsame]
          exact hnext
        · intro τ hrunning htokens hprefill a ha
          dsimp only at ha ⊢
          rw [afterDropped, tooLong_update_status] at ha
          rw [hsame a ha]
          exact hpass τ hrunning htokens hprefill a ha

/-- The outcome of a call that `rejectsAlone` excludes is the only one missing here. -/
def DropsInCompany (σ : LoopState β) : Prop := σ.ignored = [] ∨ σ.scheduled ≠ []

/-- An admission loop whose head is not dropped, or that has somebody to admit after those it
    drops. -/
theorem admitWaiting_dropsInCompany
    {gate : LoopState β → Sequence → Except PyError (Option Admission)} (hgate : GateSound gate)
    (hignored : σ.ignored = []) (hnodup : σ.waiting.Nodup)
    (hhead : headTooLong cfg now σ.objs σ.waiting = false ∨
      headAdmissible cfg now σ.objs σ.blockManager
        (afterDropped cfg now σ.objs σ.waiting) σ.running = true ∧
      ∀ τ : LoopState β, τ.running = σ.running →
        τ.numBatchedTokens = σ.numBatchedTokens →
        τ.batchContainsPrefill = σ.batchContainsPrefill →
        ∀ id ∈ (afterDropped cfg now σ.objs σ.waiting).head?,
          (σ.objs id).getLen ≤ cfg.maxModelLen → σ.running.length < cfg.maxNumSeqs →
          gate τ (σ.objs id) ≠ .ok none)
    (h : admitWaiting cfg now gate σ = .ok σ') : DropsInCompany σ' := by
  rcases hhead with hlong | ⟨hnext, hpass⟩
  · rcases admitWaiting_of_not_tooLong hgate hlong h with hne | rfl
    · exact .inr hne
    · exact .inl hignored
  · exact .inr (admitWaiting_of_nextAdmissible hgate hnodup hnext hpass h)

/-! ## The other loops -/

/-- Only the admission loop drops sequences. -/
theorem SchedStep.ignored_eq (h : SchedStep cfg now phase σ σ') (hphase : phase ≠ .admission) :
    σ'.ignored = σ.ignored := by
  cases h with
  | keep | setAside | decode | preempt | prefill | orcaDecode | requeue | takePrefills => rfl
  | ignore | enter => exact absurd rfl hphase

theorem phaseSteps_ignored_eq (h : ReflTransGen (SchedStep cfg now phase) σ σ')
    (hphase : phase ≠ .admission) : σ'.ignored = σ.ignored :=
  reflTransGen_invariant (fun τ => τ.ignored = σ.ignored)
    (fun _ _ hstep heq => (hstep.ignored_eq hphase).trans heq) h rfl

/-- A phase after which the batch is not empty. -/
theorem DropsInCompany.of_scheduled (h : ReflTransGen (SchedStep cfg now phase) σ σ')
    (hne : σ.scheduled ≠ []) : DropsInCompany σ' :=
  .inr (phaseSteps_scheduled_ne_nil h hne)

/-- The decode loop will schedule or has scheduled a sequence, or has evicted one. -/
structure DecodesOrEvicts (objs : Heap) (σ : LoopState β) : Prop where
  objs_eq : σ.objs = objs
  paused : ∀ id ∈ σ.pending, (objs id).isPaused = true
  outcome : (∃ id ∈ σ.pending, Decodable (objs id)) ∨ σ.scheduled ≠ [] ∨
    ∃ id ∈ σ.waiting.head?, (objs id).isPaused = true

theorem SchedStep.decodesOrEvicts {policy : OnUnfinishedPrompt} {objs : Heap}
    (hstep : SchedStep cfg now (.decoding policy) σ σ') (h : DecodesOrEvicts objs σ) :
    DecodesOrEvicts objs σ' := by
  obtain ⟨rfl, hpaused, houtcome⟩ := h
  -- a sequence that the loop passes over is not the one that waits for a slot
  have hpass : ∀ {id : SeqId} {rest : List SeqId}, σ.pending = id :: rest →
      ¬ Decodable (σ.objs id) → (∃ a ∈ σ.pending, Decodable (σ.objs a)) →
      ∃ a ∈ rest, Decodable (σ.objs a) := by
    rintro id rest hpending hnot ⟨a, ha, hready⟩
    rw [hpending] at ha
    refine ⟨a, (List.mem_cons.mp ha).resolve_left ?_, hready⟩
    rintro rfl
    exact hnot hready
  cases hstep with
  | keep hpending _ hdecode =>
    rw [hpending] at hpaused
    exact ⟨rfl, (List.forall_mem_cons.mp hpaused).2,
      houtcome.imp_left (hpass hpending (hdecode policy rfl))⟩
  | @setAside _ id rest hpending hprompt =>
    have hnot : ¬ Decodable (σ.objs id) := fun hready => by simp [hready.2] at hprompt
    rw [hpending] at hpaused
    exact ⟨rfl, (List.forall_mem_cons.mp hpaused).2, houtcome.imp_left (hpass hpending hnot)⟩
  | decode hpending =>
    rw [hpending] at hpaused
    exact ⟨rfl, (List.forall_mem_cons.mp hpaused).2, .inr (.inl (by simp))⟩
  | preempt hpending =>
    rw [hpending] at hpaused
    exact ⟨rfl, fun id hid => hpaused id (List.mem_append_left _ hid),
      .inr (.inr ⟨_, rfl, hpaused _ (by simp)⟩)⟩

/-! ## The policies -/

section Policies

variable {objs objs' : Heap} {s s' : SchedulerState β} {out : SchedulerOutputs}

theorem vllmSchedule_dropsInCompany {maxNumBatchedTokens : Nat}
    (hlimit : cfg.maxModelLen ≤ maxNumBatchedTokens) (hnodup : s.waiting.Nodup)
    (hhead : headTooLong cfg now objs s.waiting = false ∨
      headAdmissible cfg now objs (BlockSpaceManager.clearPromisedBlocks s.blockManager)
        (afterDropped cfg now objs s.waiting) s.running = true)
    (h : vllmSchedule cfg maxNumBatchedTokens now (s.start objs) = .ok σ') :
    DropsInCompany σ' := by
  obtain ⟨σ₁, hadm, hrest⟩ := vllmSchedule_eq_ok h
  rcases hrest with rfl | ⟨-, hignored, hdecode⟩
  · refine admitWaiting_dropsInCompany vllmGate_sound rfl hnodup (hhead.imp_right ?_) hadm
    refine fun hnext => ⟨hnext, fun τ hrunning htokens _ id _ hfits hroom => ?_⟩
    exact vllmGate_ne_none hlimit htokens hfits (by rw [hrunning]; exact hroom)
  · exact .inl ((phaseSteps_ignored_eq (decodeLoop_steps cfg now hdecode).1 (by simp)).trans
      hignored)

/-- The loop of Orca and FasterTransformer schedules the first running sequence. -/
theorem orcaLoop_scheduled_ne_nil (cfg : SchedulerConfig) (now : Time)
    (hpaused : ∀ id ∈ σ.pending, (σ.objs id).isPaused = true) (hne : σ.pending ≠ [])
    (h : visitPending orcaStep σ = .ok σ') : σ'.scheduled ≠ [] := by
  obtain ⟨id, rest, hpending⟩ := List.exists_cons_of_ne_nil hne
  have hfirst : (σ.objs id).isPaused = true := hpaused id (by simp [hpending])
  rw [visitPending, hpending, List.length_cons, iterate_succ_eq_ok] at h
  rcases h with ⟨hstop, -⟩ | ⟨τ, hstep, hrest⟩
  · simp only [orcaStep, hpending, hfirst, Bool.not_true, Bool.false_eq_true, if_false] at hstop
    obtain ⟨⟨⟩, -, hstop⟩ := seq_eq_ok.mp hstop
    cases hstop
  · simp only [orcaStep, hpending, hfirst, Bool.not_true, Bool.false_eq_true, if_false] at hstep
    obtain ⟨⟨⟩, -, hstep⟩ := seq_eq_ok.mp hstep
    cases hstep
    have hsteps : ReflTransGen (SchedStep cfg now .orca) _ σ' :=
      iterate_reflTransGen (fun _ _ => orcaStep_sound) hrest
    exact phaseSteps_scheduled_ne_nil hsteps (by simp)

omit [BlockSpaceManager β] in
theorem orcaGate_ne_none {seq : Sequence} (hroom : σ.running.length < cfg.maxNumSeqs) :
    orcaGate cfg σ seq ≠ .ok none := by
  rw [orcaGate, if_neg (by omega)]
  rintro ⟨⟩

theorem orcaRun_dropsInCompany {σ₁ : LoopState β}
    (hpaused : ∀ id ∈ s.running, (objs id).isPaused = true) (hnodup : s.waiting.Nodup)
    (hhead : headTooLong cfg now objs s.waiting = false ∨ s.running ≠ [] ∨
      headAdmissible cfg now objs s.blockManager
        (afterDropped cfg now objs s.waiting) s.running = true)
    (horca : visitPending orcaStep
      { s.start objs with pending := s.running, running := [] } = .ok σ₁)
    (hadm : σ' = σ₁ ∨ admitWaiting cfg now (orcaGate cfg) σ₁ = .ok σ') : DropsInCompany σ' := by
  have hsteps := (orcaLoop_steps cfg now horca).1
  rcases hadm with rfl | hadm
  · exact .inl (phaseSteps_ignored_eq hsteps (by simp))
  by_cases hrunning : s.running = []
  · -- nothing runs, and the loop over the running sequences has changed nothing
    rw [hrunning] at horca
    cases horca
    refine admitWaiting_dropsInCompany orcaGate_sound rfl hnodup ?_ hadm
    refine hhead.imp_right fun hnext => ?_
    rw [hrunning] at hnext
    refine ⟨hnext.resolve_left (not_not_intro rfl), fun τ hτ _ _ id _ _ hroom => ?_⟩
    exact orcaGate_ne_none (by rw [hτ]; exact hroom)
  · exact .of_scheduled (orcaAdmission_steps hadm)
      (orcaLoop_scheduled_ne_nil cfg now hpaused hrunning horca)

/-- An admission loop behind a prefill loop over the running sequences. -/
theorem prefillAdmission_dropsInCompany {σ₀ σ₁ : LoopState β}
    {gate : LoopState β → Sequence → Except PyError (Option Admission)} (hgate : GateSound gate)
    (hprefill : ReflTransGen (SchedStep cfg now .prefilling) σ₀ σ₁) (hdone : σ₁.pending = [])
    (hrunning : σ₀.running = []) (hignored : σ₀.ignored = []) (hnodup : σ₀.waiting.Nodup)
    (hhead : headTooLong cfg now σ₀.objs σ₀.waiting = false ∨ σ₁.scheduled ≠ [] ∨
      headAdmissible cfg now σ₀.objs σ₀.blockManager
        (afterDropped cfg now σ₀.objs σ₀.waiting) σ₀.pending = true ∧
      ∀ τ : LoopState β, τ.running.length = σ₀.pending.length →
        τ.numBatchedTokens = σ₀.numBatchedTokens →
        τ.batchContainsPrefill = σ₀.batchContainsPrefill →
        ∀ id ∈ (afterDropped cfg now σ₀.objs σ₀.waiting).head?,
          σ₀.pending.length < cfg.maxNumSeqs → gate τ (σ₀.objs id) ≠ .ok none)
    (hadm : admitWaiting cfg now gate σ₁ = .ok σ') : DropsInCompany σ' := by
  by_cases hne : σ₁.scheduled = []
  case neg => exact .of_scheduled (admitWaiting_steps hgate hadm) hne
  obtain ⟨pending, running, rfl, hlists⟩ := prefilling_eq_of_nil hprefill hne
  obtain rfl : pending = [] := hdone
  obtain rfl : running = σ₀.pending := by simpa [hrunning] using hlists
  refine admitWaiting_dropsInCompany hgate (by exact hignored) (by exact hnodup) ?_ hadm
  refine hhead.imp_right fun hnext => ?_
  obtain ⟨hnext, hpass⟩ := hnext.resolve_left (not_not_intro hne)
  refine ⟨hnext, fun τ hτ htokens hprefill id hid _ hroom => ?_⟩
  exact hpass τ (congrArg List.length hτ) htokens hprefill id hid hroom

/-- `headAdmissible` depends on the number of running sequences only. -/
theorem headAdmissible_perm {blockManager : β} {waiting running running' : List SeqId}
    (h : running'.Perm running) :
    headAdmissible cfg now objs blockManager waiting running' =
      headAdmissible cfg now objs blockManager waiting running := by
  cases waiting with
  | nil => rfl
  | cons id rest => simp only [headAdmissible, h.length_eq]

theorem sarathiSchedule_dropsInCompany {chunks : ChunkSchedule}
    (hpaused : ∀ id ∈ s.running, (objs id).isPaused = true) (hnodup : s.waiting.Nodup)
    (hhead : headTooLong cfg now objs s.waiting = false ∨
      (∃ id ∈ s.running, (objs id).promptProcessingFinished = true ∨
        getsChunk chunks (objs id) = true) ∨
      headAdmissible cfg now objs (BlockSpaceManager.clearPromisedBlocks s.blockManager)
        (afterDropped cfg now objs s.waiting) s.running = true ∧
      nextGetsChunk chunks objs (afterDropped cfg now objs s.waiting) = true)
    (h : sarathiSchedule cfg chunks now (s.start objs) = .ok σ') : DropsInCompany σ' := by
  have hperm := sortByPriority_perm now objs s.running
  have hgate : GateSound (β := β) (chunkGate cfg (sarathiNextNumPrefillTokens chunks)) :=
    chunkGate_sound fun _ _ _ => sarathiNextNumPrefillTokens_le
  by_cases hsome : ∃ id ∈ s.running, (objs id).promptProcessingFinished = true
  · -- the decode loop fills the batch, or evicts: then a paused sequence heads the waiting list
    obtain ⟨σ₁, hdecode, h⟩ := seq_eq_ok.mp h
    obtain ⟨σ₂, hprefill, h⟩ := seq_eq_ok.mp h
    obtain ⟨hdecode, hdone⟩ := decodeLoop_steps cfg now hdecode
    have hprefill := (sarathiPrefillLoop_steps cfg now hprefill).1
    obtain ⟨id, hid, hfinished⟩ := hsome
    have hend := reflTransGen_invariant (DecodesOrEvicts objs)
      (fun _ _ hstep => hstep.decodesOrEvicts) hdecode
      ⟨rfl, fun a ha => hpaused a (hperm.mem_iff.mp ha),
        .inl ⟨id, hperm.mem_iff.mpr hid, hpaused id hid, hfinished⟩⟩
    rcases hend.outcome with ⟨a, ha, -⟩ | hne | ⟨a, ha, hvictim⟩
    · simp [hdone] at ha
    · exact .of_scheduled (sarathiAdmission_steps h)
        (phaseSteps_scheduled_ne_nil hprefill (by exact hne))
    · obtain ⟨hobjs, hwaiting, -⟩ := prefilling_frame hprefill
      have hignored : σ₂.ignored = [] := by
        rw [phaseSteps_ignored_eq hprefill (by simp)]
        exact phaseSteps_ignored_eq hdecode (by simp)
      have hkept := admitWaiting_of_not_dropped hgate (fun b hb _ _ hstatus => ?_) h
      · rcases hkept with hne | rfl
        · exact .inr hne
        · exact .inl hignored
      · rw [hwaiting] at hb
        obtain rfl : a = b := Option.some.inj (ha.symm.trans hb)
        rw [hobjs] at hstatus
        rw [← hend.objs_eq, Sequence.isPaused, hstatus] at hvictim
        cases hvictim
  · -- the decode loop hands all running sequences on
    have hprompts : ∀ id ∈ s.running, (objs id).promptProcessingFinished = false := by
      simpa using hsome
    by_cases hchunk : ∃ id ∈ s.running, getsChunk chunks (objs id) = true
    · exact .inr (sarathiSchedule_nonempty_of_prefill hpaused rfl rfl rfl hprompts hchunk h)
    rw [sarathiSchedule_eq_of_unfinished hpaused rfl hprompts] at h
    obtain ⟨σ₁, hprefill, h⟩ := seq_eq_ok.mp h
    obtain ⟨hprefill, hdone⟩ := sarathiPrefillLoop_steps cfg now hprefill
    refine prefillAdmission_dropsInCompany hgate hprefill hdone rfl rfl hnodup ?_ h
    refine hhead.imp_right fun hnext => .inr ?_
    obtain ⟨hadmissible, hall⟩ := hnext.resolve_left fun ⟨id, hid, hor⟩ =>
      hor.elim (fun hfinished => hsome ⟨id, hid, hfinished⟩) fun hgets => hchunk ⟨id, hid, hgets⟩
    refine ⟨(headAdmissible_perm hperm).trans hadmissible, ?_⟩
    intro τ hτ htokens hprefill id hid hroom
    exact sarathiGate_ne_none hprefill htokens (nextGetsChunk_head hall hid)
      (by rw [hτ]; exact hroom)

/-! ### Simple chunking -/

omit [BlockSpaceManager β] in
theorem simpleNextNumPrefillTokens_of_empty {chunkSize : Nat} {seq : Sequence}
    (htokens : σ.numBatchedTokens = 0) :
    simpleNextNumPrefillTokens chunkSize σ seq = firstChunk (.fixed chunkSize) seq := by
  rw [simpleNextNumPrefillTokens, htokens, sub_zero]
  rfl

omit [BlockSpaceManager β] in
theorem simpleGate_ne_none {chunkSize : Nat} {seq : Sequence} (htokens : σ.numBatchedTokens = 0)
    (hchunk : getsChunk (.fixed chunkSize) seq = true)
    (hroom : σ.running.length < cfg.maxNumSeqs) :
    chunkGate cfg (simpleNextNumPrefillTokens chunkSize) σ seq ≠ .ok none := by
  intro hgate
  rw [chunkGate, if_neg (not_le.mpr hroom), simpleNextNumPrefillTokens_of_empty htokens] at hgate
  obtain ⟨next, hnext, hgate⟩ := seq_eq_ok.mp hgate
  split_ifs at hgate with hzero
  · simp [getsChunk, hnext, hzero] at hchunk
  · cases hgate

/-- The batch has an entry, or a queued prompt will get a chunk. -/
def SimplePrefillReady (chunkSize : Nat) (σ : LoopState β) : Prop :=
  σ.scheduled ≠ [] ∨ σ.numBatchedTokens = 0 ∧
    ∃ id ∈ σ.pending, (σ.objs id).isPaused = true ∧
      (σ.objs id).promptProcessingFinished = false ∧
      getsChunk (.fixed chunkSize) (σ.objs id) = true

omit [BlockSpaceManager β] in
theorem simplePrefillStep_ready {chunkSize : Nat}
    (hstep : simplePrefillStep chunkSize σ = .ok (some σ')) (h : SimplePrefillReady chunkSize σ) :
    SimplePrefillReady chunkSize σ' := by
  unfold simplePrefillStep at hstep
  split at hstep
  · cases hstep
  · rename_i id rest hpending
    -- a turn that passes over the front does not pass over the prompt we wait for
    have hpass : (σ.numBatchedTokens = 0 → (σ.objs id).isPaused = true →
        (σ.objs id).promptProcessingFinished = false →
        getsChunk (.fixed chunkSize) (σ.objs id) = false) →
        SimplePrefillReady chunkSize { σ with pending := rest, running := σ.running ++ [id] } := by
      intro hnot
      refine h.imp_right fun ⟨htokens, a, ha, hpaused, hprompt, hchunk⟩ =>
        ⟨htokens, a, ?_, hpaused, hprompt, hchunk⟩
      rw [hpending] at ha
      refine (List.mem_cons.mp ha).resolve_left ?_
      rintro rfl
      rw [hnot htokens hpaused hprompt] at hchunk
      cases hchunk
    dsimp only at hstep
    split_ifs at hstep with hpaused hprompt
    · cases hstep
      exact hpass fun _ hp => by simp [hp] at hpaused
    · cases hstep
      exact hpass fun _ _ hp => by simp [hp] at hprompt
    · obtain ⟨next, hnext, hstep⟩ := seq_eq_ok.mp hstep
      split_ifs at hstep with hzero
      · cases hstep
        refine hpass fun htokens _ _ => ?_
        rw [simpleNextNumPrefillTokens_of_empty htokens, hzero] at hnext
        simp [getsChunk, hnext]
      · cases hstep
        exact .inl (by simp [schedulePrefill])

omit [BlockSpaceManager β] in
theorem SimplePrefillReady.scheduled_ne_nil {chunkSize : Nat}
    (hready : SimplePrefillReady chunkSize σ)
    (h : visitPending (simplePrefillStep chunkSize) σ = .ok σ') (hdone : σ'.pending = []) :
    σ'.scheduled ≠ [] := by
  have hend := iterate_invariant (SimplePrefillReady chunkSize)
    (fun _ _ => simplePrefillStep_ready) h hready
  refine hend.resolve_right ?_
  rintro ⟨-, id, hid, -⟩
  simp [hdone] at hid

theorem simpleSchedule_dropsInCompany {chunkSize : Nat} {turn' : Turn}
    (hpaused : ∀ id ∈ s.running, (objs id).isPaused = true) (hnodup : s.waiting.Nodup)
    (hhead : headTooLong cfg now objs s.waiting = false ∨ s.whoseTurn = .decode ∨
      (∃ id ∈ s.running, (objs id).promptProcessingFinished = false ∧
        getsChunk (.fixed chunkSize) (objs id) = true) ∨
      headAdmissible cfg now objs s.blockManager (afterDropped cfg now objs s.waiting)
        s.running = true ∧
      nextGetsChunk (.fixed chunkSize) objs (afterDropped cfg now objs s.waiting) = true)
    (h : simpleSchedule cfg chunkSize now s.whoseTurn (s.start objs) = .ok (σ', turn')) :
    DropsInCompany σ' := by
  have hperm := sortByPriority_perm now objs s.running
  have hdecodes : ∀ {τ : LoopState β}, visitPending (decodeStep .keep) τ = .ok σ' →
      τ.ignored = [] → DropsInCompany σ' := fun hdecode hignored =>
    .inl ((phaseSteps_ignored_eq (decodeLoop_steps cfg now hdecode).1 (by simp)).trans hignored)
  cases hturn : s.whoseTurn with
  | decode =>
    rw [hturn] at h
    obtain ⟨σ₁, hdecode, h⟩ := seq_eq_ok.mp h
    cases h
    exact hdecodes hdecode rfl
  | prefill =>
    replace hhead := hhead.imp_right fun hnext => hnext.resolve_left (by simp [hturn])
    cases simpleSchedule_run h with
    | decodes hdecode => exact hdecodes hdecode rfl
    | passes _ _ _ hignored hdecode => exact hdecodes hdecode hignored
    | prefills hprefill =>
      exact .inl (phaseSteps_ignored_eq (simplePrefillLoop_steps cfg now hprefill).1 (by simp))
    | admits hprefill hadm =>
      obtain ⟨hsteps, hdone⟩ := simplePrefillLoop_steps cfg now hprefill
      refine prefillAdmission_dropsInCompany
        (chunkGate_sound fun _ _ _ => simpleNextNumPrefillTokens_le) hsteps hdone rfl rfl
        (by exact hnodup) ?_ hadm
      refine hhead.imp_right (Or.imp ?_ ?_)
      · rintro ⟨id, hid, hprompt, hchunk⟩
        have hready : SimplePrefillReady chunkSize ((s.start objs).requeueRunning now) :=
          .inr ⟨rfl, id, hperm.mem_iff.mpr hid, hpaused id hid, hprompt, hchunk⟩
        exact hready.scheduled_ne_nil hprefill hdone
      · rintro ⟨hadmissible, hall⟩
        refine ⟨(headAdmissible_perm hperm).trans hadmissible, ?_⟩
        intro τ hτ htokens _ id hid hroom
        exact simpleGate_ne_none htokens (nextGetsChunk_head hall hid) (by rw [hτ]; exact hroom)

/-! ### The result -/

theorem runPolicy_dropsInCompany {turn' : Turn}
    (hpaused : ∀ id ∈ s.running, (objs id).isPaused = true) (hnodup : s.waiting.Nodup)
    (hcompany : rejectsAlone cfg now objs s = false)
    (h : runPolicy cfg now s.whoseTurn (s.start objs) = .ok (σ', turn')) : DropsInCompany σ' := by
  unfold rejectsAlone SchedulerConfig.startManager at hcompany
  cases hpolicy : cfg.policy with
  | vllm n =>
    simp only [hpolicy, Bool.and_eq_false_iff, Bool.not_eq_false'] at hcompany
    exact vllmSchedule_dropsInCompany (cfg.vllm_limit n hpolicy) hnodup hcompany
      (runPolicy_vllm hpolicy h)
  | sarathi chunks =>
    simp only [hpolicy, Bool.and_eq_false_iff, Bool.not_eq_false', List.any_eq_true,
      Bool.or_eq_true, Bool.and_eq_true] at hcompany
    exact sarathiSchedule_dropsInCompany hpaused hnodup hcompany (runPolicy_sarathi hpolicy h)
  | simpleChunking chunkSize =>
    simp only [hpolicy, Bool.and_eq_false_iff, Bool.not_eq_false', List.any_eq_true,
      Bool.and_eq_true, Bool.not_eq_true', or_assoc] at hcompany
    simp only [runPolicy, hpolicy] at h
    refine simpleSchedule_dropsInCompany hpaused hnodup (hcompany.imp_right ?_) h
    refine Or.imp_left fun hturn => ?_
    cases hwhose : s.whoseTurn with
    | prefill => simp [hwhose] at hturn
    | decode => rfl
  | orca | fasterTransformer =>
    simp only [hpolicy, Bool.and_eq_false_iff, Bool.not_eq_false', List.isEmpty_eq_false_iff]
      at hcompany
    cases runPolicy_run h with
    | vllm hother | sarathi hother | simpleChunking hother =>
      rw [hpolicy] at hother
      cases hother
    | orca _ horca hadm => exact orcaRun_dropsInCompany hpaused hnodup hcompany horca hadm

/-- **A call that drops a sequence returns a batch**, unless it is one that `rejectsAlone`
    names. -/
theorem schedule_ignored_or_batch (hpaused : ∀ id ∈ s.running, (objs id).isPaused = true)
    (hnodup : s.waiting.Nodup) (hcompany : rejectsAlone cfg now objs s = false)
    (h : schedule cfg now objs s = .ok (objs', s', out)) :
    out.ignoredSeqIds = [] ∨ out.isEmpty = false := by
  rcases schedule_eq_ok h with ⟨-, -, rfl⟩ | ⟨σ, turn, hrun, -, -, rfl⟩
  · exact .inl rfl
  · refine (runPolicy_dropsInCompany hpaused hnodup hcompany hrun).imp_right fun hne => ?_
    simpa [LoopState.outputs, SchedulerOutputs.isEmpty] using hne

end Policies

end VAttention.Scheduler
