import VAttention.Scheduler.Invariants

/-!
# Promises and iterations

`vAttentionBlockSpaceManager` counts the blocks that it has promised since the counter was last
cleared.  The number of free blocks is set anew for every iteration, and the promises of earlier
iterations are then in it already.  So an answer of `can_allocate` is about this iteration only if
the counter starts at zero.

A manager that records the calls made on it shows what the answers depend on: every run of the
loops over the plain manager is one over the recording manager, and the answers are computed from
the free count, the recorded calls and the promises at the start.
-/

namespace VAttention.Scheduler

open VAttention.Core VAttention.Lib Relation

/-! ## The recording manager -/

/-- A call that changes what the manager answers. -/
inductive ManagerCall where
  | allocate (id : SeqId) (seq : Sequence)
  | appendSlot (id : SeqId) (seq : Sequence)
  | free (id : SeqId) (seq : Sequence)

/-- The vAttention manager with the calls made in this iteration. -/
structure RecordingManager where
  manager : VAttentionBlockManager
  calls : List ManagerCall

instance : BlockSpaceManager RecordingManager where
  canAllocate m := m.manager.canAllocate
  allocate m id seq := .ok ⟨m.manager.allocate id seq, m.calls ++ [.allocate id seq]⟩
  canAppendSlot m := m.manager.canAppendSlot
  appendSlot m id seq := .ok ⟨m.manager.appendSlot seq, m.calls ++ [.appendSlot id seq]⟩
  free m id seq := ⟨m.manager.free id seq, m.calls ++ [.free id seq]⟩
  isAllocated m := BlockSpaceManager.isAllocated m.manager
  setFreeBlocks m n := { m with manager := BlockSpaceManager.setFreeBlocks m.manager n }
  clearPromisedBlocks m :=
    { m with manager := BlockSpaceManager.clearPromisedBlocks m.manager }
  enqueuePreempted m id := { m with manager := BlockSpaceManager.enqueuePreempted m.manager id }
  takePreemptionQueue m :=
    let taken := BlockSpaceManager.takePreemptionQueue m.manager
    (taken.1, { m with manager := taken.2 })

/-- The same loop state over the recording manager. -/
def LoopState.recorded (σ : LoopState VAttentionBlockManager) (calls : List ManagerCall) :
    LoopState RecordingManager where
  objs := σ.objs
  blockManager := ⟨σ.blockManager, calls⟩
  waiting := σ.waiting
  pending := σ.pending
  running := σ.running
  runningPrefills := σ.runningPrefills
  ignored := σ.ignored
  preempted := σ.preempted
  scheduled := σ.scheduled
  numBatchedTokens := σ.numBatchedTokens
  batchContainsPrefill := σ.batchContainsPrefill

variable {cfg : SchedulerConfig} {now : Time} {phase : Phase}
  {σ σ' τ : LoopState VAttentionBlockManager} {calls : List ManagerCall}

/-- **Lifting**: a turn of a loop makes the same decision over the recording manager. -/
theorem SchedStep.recorded (h : SchedStep cfg now phase σ σ') (calls : List ManagerCall) :
    ∃ calls', SchedStep cfg now phase (σ.recorded calls) (σ'.recorded calls') := by
  cases h with
  | keep hpending hvisits hdecode => exact ⟨_, .keep hpending hvisits hdecode⟩
  | setAside hpending hprompt => exact ⟨_, .setAside hpending hprompt⟩
  | decode hpending hready hcan happend =>
    cases happend
    exact ⟨_, .decode hpending hready hcan rfl⟩
  | preempt hpending hfront hready hcan hexecuting =>
    exact ⟨_, .preempt hpending hfront hready hcan hexecuting⟩
  | prefill hpending hprompt => exact ⟨_, .prefill hpending hprompt⟩
  | orcaDecode hpending hready => exact ⟨_, .orcaDecode hpending hready⟩
  | ignore hwaiting harrived hlong hstatus => exact ⟨_, .ignore hwaiting harrived hlong hstatus⟩
  | enter hwaiting harrived hfits hcan hallocate hchunk =>
    cases hallocate
    exact ⟨_, .enter hwaiting harrived hfits hcan rfl hchunk⟩
  | requeue horder hpending hscheduled => exact ⟨_, .requeue horder hpending hscheduled⟩
  | takePrefills hpending => exact ⟨_, .takePrefills hpending⟩

/-- The calls that the loops have made on the way from the start of an iteration. -/
def CallsUpTo (cfg : SchedulerConfig) (now : Time) (σ τ : LoopState VAttentionBlockManager)
    (calls : List ManagerCall) : Prop :=
  SchedSteps cfg now (σ.recorded []) (τ.recorded calls)

theorem SchedSteps.exists_calls (h : SchedSteps cfg now σ τ) :
    ∃ calls, CallsUpTo cfg now σ τ calls := by
  induction h with
  | refl => exact ⟨[], .refl⟩
  | tail _ hstep ih =>
    obtain ⟨calls, hcalls⟩ := ih
    obtain ⟨phase, hstep⟩ := hstep
    obtain ⟨calls', hrecorded⟩ := hstep.recorded calls
    exact ⟨calls', hcalls.tail ⟨phase, hrecorded⟩⟩

/-! ## What the calls amount to -/

/-- Blocks that are free and blocks that are promised. -/
structure Balance where
  free : Nat
  promised : Nat

/-- An admission promises the blocks of a sequence, a slot may promise one more, and an eviction
    credits the blocks. -/
def ManagerCall.post (blockSize : Nat) (b : Balance) : ManagerCall → Balance
  | .allocate _ seq => { b with promised := b.promised + ceilDiv seq.getLen blockSize }
  | .appendSlot _ seq =>
    { b with
      promised := b.promised +
        if ceilDiv seq.getLen blockSize < ceilDiv (seq.getLen + 1) blockSize then 1 else 0 }
  | .free _ seq => { b with free := b.free + ceilDiv seq.getLen blockSize }

/-- The balance after the calls of an iteration that starts with the given number of free blocks
    and no promise. -/
def balance (blockSize freeBlocks : Nat) (calls : List ManagerCall) : Balance :=
  calls.foldl (ManagerCall.post blockSize) ⟨freeBlocks, 0⟩

theorem balance_append (blockSize freeBlocks : Nat) (calls : List ManagerCall)
    (call : ManagerCall) :
    balance blockSize freeBlocks (calls ++ [call]) =
      call.post blockSize (balance blockSize freeBlocks calls) := by
  simp [balance, List.foldl_append]

/-- The answer of `can_allocate` by the free count and the calls of one iteration. -/
def answerOf (blockSize watermarkBlocks freeBlocks : Nat) (calls : List ManagerCall)
    (seq : Sequence) : Bool :=
  let b := balance blockSize freeBlocks calls
  watermarkBlocks + ceilDiv seq.getLen blockSize + b.promised ≤ b.free

/-- What the manager knows in an iteration that started with `leftover` promises: the balance of
    the calls, and that everything under way is allocated. -/
structure Ledger (start : VAttentionBlockManager) (freeBlocks leftover : Nat)
    (ρ : LoopState RecordingManager) : Prop where
  blockSize : ρ.blockManager.manager.blockSize = start.blockSize
  watermark : ρ.blockManager.manager.watermarkBlocks = start.watermarkBlocks
  free : ρ.blockManager.manager.freeBlocks =
    (balance start.blockSize freeBlocks ρ.blockManager.calls).free
  promised : ρ.blockManager.manager.promisedBlocks =
    leftover + (balance start.blockSize freeBlocks ρ.blockManager.calls).promised
  active : ∀ id, id ∈ ρ.pending ∨ id ∈ ρ.running ∨ id ∈ ρ.runningPrefills →
    id ∈ ρ.blockManager.manager.activeRequests

section Steps

variable {start : VAttentionBlockManager} {freeBlocks leftover : Nat}
  {ρ ρ' : LoopState RecordingManager} {W R : List SeqId} {objs : Heap}

/-- A turn that does not call the manager. -/
theorem Ledger.quiet (h : Ledger start freeBlocks leftover ρ)
    (hmanager : ρ'.blockManager = ρ.blockManager)
    (hlists : ∀ id, id ∈ ρ'.pending ∨ id ∈ ρ'.running ∨ id ∈ ρ'.runningPrefills →
      id ∈ ρ.pending ∨ id ∈ ρ.running ∨ id ∈ ρ.runningPrefills) :
    Ledger start freeBlocks leftover ρ' where
  blockSize := by rw [hmanager]; exact h.blockSize
  watermark := by rw [hmanager]; exact h.watermark
  free := by rw [hmanager]; exact h.free
  promised := by rw [hmanager]; exact h.promised
  active id hid := by rw [hmanager]; exact h.active id (hlists id hid)

/-- The front of the queue goes on to the running sequences. -/
theorem mem_active_of_visit {τ : LoopState RecordingManager} {id : SeqId} {rest : List SeqId}
    (hpending : ρ.pending = id :: rest) (hpending' : τ.pending = rest)
    (hrunning : τ.running = ρ.running ++ [id])
    (hprefills : τ.runningPrefills = ρ.runningPrefills) :
    ∀ k, k ∈ τ.pending ∨ k ∈ τ.running ∨ k ∈ τ.runningPrefills →
      k ∈ ρ.pending ∨ k ∈ ρ.running ∨ k ∈ ρ.runningPrefills := by
  intro k hk
  rw [hpending', hrunning, hprefills, List.mem_append, List.mem_singleton] at hk
  rw [hpending, List.mem_cons]
  tauto

/-- A victim occurs nowhere else. -/
theorem LoopInv.ne_victim (h : LoopInv cfg now W R objs ρ) (hnodup : (W ++ R).Nodup)
    {victim id : SeqId} {rest : List SeqId} (hpending : ρ.pending = rest ++ [victim])
    (hid : id ∈ rest ∨ id ∈ ρ.running ∨ id ∈ ρ.runningPrefills) : id ≠ victim := by
  rintro rfl
  have hle := h.occurrences_le hnodup id
  simp only [LoopState.occurrences, hpending, List.count_append, List.count_singleton_self] at hle
  rcases hid with hid | hid | hid
  all_goals
    have hpos := List.count_pos_iff.mpr hid
    omega

/-- Evicting an active sequence credits its blocks and queues it for the workers. -/
theorem enqueuePreempted_free (m : RecordingManager) {victim : SeqId} (seq : Sequence)
    (hactive : victim ∈ m.manager.activeRequests) :
    BlockSpaceManager.enqueuePreempted (BlockSpaceManager.free m victim seq) victim =
      (⟨{ m.manager with
          activeRequests := m.manager.activeRequests.erase victim
          freeBlocks := m.manager.freeBlocks + m.manager.getNumBlocks seq
          preemptionQueue := m.manager.preemptionQueue ++ [victim] },
        m.calls ++ [.free victim seq]⟩ : RecordingManager) := by
  have hfree : m.manager.free victim seq =
      { m.manager with
        activeRequests := m.manager.activeRequests.erase victim
        freeBlocks := m.manager.freeBlocks + m.manager.getNumBlocks seq } := if_pos hactive
  show (⟨BlockSpaceManager.enqueuePreempted (m.manager.free victim seq) victim, _⟩ :
    RecordingManager) = _
  rw [hfree]
  rfl

/-- An admitted sequence is active, and so is every one that was. -/
theorem mem_activeRequests_allocate {m : VAttentionBlockManager} {id k : SeqId} (seq : Sequence)
    (h : k = id ∨ k ∈ m.activeRequests) : k ∈ (m.allocate id seq).activeRequests := by
  show k ∈ if id ∈ m.activeRequests then m.activeRequests else m.activeRequests ++ [id]
  rcases h with rfl | hold
  · split_ifs with hmem
    · exact hmem
    · simp
  · split_ifs
    · exact hold
    · exact List.mem_append_left _ hold

/-- **Step lemma** of the ledger. -/
theorem Ledger.step (hstep : SchedStep cfg now phase ρ ρ') (hnodup : (W ++ R).Nodup)
    (hloop : LoopInv cfg now W R objs ρ) (h : Ledger start freeBlocks leftover ρ) :
    Ledger start freeBlocks leftover ρ' := by
  cases hstep with
  | keep hpending => exact h.quiet rfl (mem_active_of_visit hpending rfl rfl rfl)
  | prefill hpending => exact h.quiet rfl (mem_active_of_visit hpending rfl rfl rfl)
  | orcaDecode hpending => exact h.quiet rfl (mem_active_of_visit hpending rfl rfl rfl)
  | setAside hpending =>
    refine h.quiet rfl fun k hk => ?_
    simp only [List.mem_append, List.mem_singleton] at hk
    rw [hpending, List.mem_cons]
    tauto
  | ignore => exact h.quiet rfl fun _ => id
  | requeue horder hpending =>
    refine h.quiet rfl fun k hk => ?_
    simp only [horder.mem_iff, List.not_mem_nil] at hk
    tauto
  | takePrefills =>
    refine h.quiet rfl fun k hk => ?_
    simp only [List.not_mem_nil] at hk
    tauto
  | @decode _ _ id rest _ hpending _ _ happend =>
    cases happend
    have hsize := h.blockSize
    have hlists := mem_active_of_visit (τ := { ρ with
      pending := rest, running := ρ.running ++ [id] }) hpending rfl rfl rfl
    constructor
    all_goals dsimp only
    all_goals rw [VAttentionBlockManager.appendSlot_eq]
    · exact h.blockSize
    · exact h.watermark
    · rw [balance_append]
      exact h.free
    · rw [balance_append, h.promised]
      simp only [ManagerCall.post, VAttentionBlockManager.crossesBlock, hsize, decide_eq_true_eq]
      omega
    · exact fun k hk => h.active k (hlists k hk)
  | @preempt _ _ _ victim rest hpending =>
    have hactive : victim ∈ ρ.blockManager.manager.activeRequests :=
      h.active victim (.inl (by simp [hpending]))
    have hsize := h.blockSize
    constructor
    all_goals dsimp only
    all_goals rw [enqueuePreempted_free _ _ hactive]
    · exact h.blockSize
    · exact h.watermark
    · rw [balance_append, h.free]
      simp only [ManagerCall.post, VAttentionBlockManager.getNumBlocks, hsize]
    · rw [balance_append]
      exact h.promised
    · intro k hk
      have hne := hloop.ne_victim hnodup hpending hk
      refine (List.mem_erase_of_ne hne).mpr (h.active k ?_)
      rw [hpending, List.mem_append]
      tauto
  | @enter _ id rest _ _ _ hwaiting _ _ _ hallocate =>
    cases hallocate
    have hsize := h.blockSize
    constructor
    case active =>
      intro k hk
      simp only [List.mem_append, List.mem_singleton] at hk
      have hcases : k = id ∨ (k ∈ ρ.pending ∨ k ∈ ρ.running ∨ k ∈ ρ.runningPrefills) := by tauto
      exact mem_activeRequests_allocate _ (hcases.imp_right (h.active k))
    all_goals dsimp only [VAttentionBlockManager.allocate]
    · exact h.blockSize
    · exact h.watermark
    · rw [balance_append]
      exact h.free
    · rw [balance_append, h.promised]
      simp only [ManagerCall.post, VAttentionBlockManager.getNumBlocks, hsize]
      omega

/-- **Run lemma** of the ledger. -/
theorem Ledger.steps (hsteps : SchedSteps cfg now ρ ρ') (hnodup : (W ++ R).Nodup)
    (hloop : LoopInv cfg now W R objs ρ) (h : Ledger start freeBlocks leftover ρ) :
    Ledger start freeBlocks leftover ρ' := by
  have hboth := reflTransGen_invariant
    (fun ρ => LoopInv cfg now W R objs ρ ∧ Ledger start freeBlocks leftover ρ)
    (fun _ _ ⟨_, hstep⟩ ⟨hloop, h⟩ => ⟨hstep.loopInv hnodup hloop, h.step hstep hnodup hloop⟩)
    hsteps ⟨hloop, h⟩
  exact hboth.2

end Steps

/-! ## An iteration -/

/-- The loop state at the start of an iteration with the given number of free blocks. -/
def iterationStart (cfg : SchedulerConfig) (objs : Heap) (s : SchedulerState VAttentionBlockManager)
    (freeBlocks : Nat) : LoopState VAttentionBlockManager :=
  { s.start objs with
    blockManager := cfg.startManager (BlockSpaceManager.setFreeBlocks s.blockManager freeBlocks) }

/-- The policies that clear the promises at the start of an iteration. -/
def Policy.clearsPromises : Policy → Bool
  | .vllm _ | .sarathi _ => true
  | .orca | .fasterTransformer | .simpleChunking _ => false

/-- The answers of an iteration come from the free count that was set for it and from the calls
    made in it: every state of the loops has its calls, and they give the answer to every
    sequence. -/
structure AnswersFromIteration (cfg : SchedulerConfig) (now : Time) (objs : Heap)
    (s : SchedulerState VAttentionBlockManager) (freeBlocks : Nat) : Prop where
  recorded : ∀ τ, SchedSteps cfg now (iterationStart cfg objs s freeBlocks) τ →
    ∃ calls, CallsUpTo cfg now (iterationStart cfg objs s freeBlocks) τ calls
  answers : ∀ τ calls, CallsUpTo cfg now (iterationStart cfg objs s freeBlocks) τ calls →
    ∀ seq, τ.blockManager.canAllocate seq =
      answerOf s.blockManager.blockSize s.blockManager.watermarkBlocks freeBlocks calls seq

variable {objs : Heap} {s : SchedulerState VAttentionBlockManager}

theorem startManager_eq (cfg : SchedulerConfig) (m : VAttentionBlockManager) :
    cfg.startManager m =
      { m with promisedBlocks := if cfg.policy.clearsPromises then 0 else m.promisedBlocks } := by
  unfold SchedulerConfig.startManager
  split <;> rename_i hpolicy <;> simp [hpolicy, Policy.clearsPromises] <;> rfl

/-- The ledger of a whole iteration. -/
theorem CallsUpTo.ledger {freeBlocks : Nat} (hnodup : (s.waiting ++ s.running).Nodup)
    (hactive : ∀ id ∈ s.running, id ∈ s.blockManager.activeRequests)
    (h : CallsUpTo cfg now (iterationStart cfg objs s freeBlocks) τ calls) :
    Ledger s.blockManager freeBlocks
      (if cfg.policy.clearsPromises then 0 else s.blockManager.promisedBlocks)
      (τ.recorded calls) := by
  have hloop : LoopInv cfg now s.waiting s.running objs
      ((iterationStart cfg objs s freeBlocks).recorded []) :=
    LoopInv.start cfg now objs
      { waiting := s.waiting, running := s.running, numRunningBatches := s.numRunningBatches
        whoseTurn := s.whoseTurn
        blockManager := (⟨(iterationStart cfg objs s freeBlocks).blockManager, []⟩ :
          RecordingManager) } _
  refine Ledger.steps h hnodup hloop ?_
  have hmanager : (iterationStart cfg objs s freeBlocks).blockManager =
      { s.blockManager with
        freeBlocks := freeBlocks
        promisedBlocks :=
          if cfg.policy.clearsPromises then 0 else s.blockManager.promisedBlocks } :=
    startManager_eq cfg _
  constructor
  all_goals
    simp only [LoopState.recorded, hmanager]
  · rfl
  · exact (Nat.add_zero _).symm
  · rintro id (hid | hid | hid)
    · cases hid
    · exact hactive id hid
    · cases hid

/-- **What the answers depend on**: from the start of an iteration, with any free count, they come
    from the iteration alone exactly if it starts with no promise. -/
theorem answersFromIteration_iff (hnodup : (s.waiting ++ s.running).Nodup)
    (hactive : ∀ id ∈ s.running, id ∈ s.blockManager.activeRequests) :
    (∀ now freeBlocks, AnswersFromIteration cfg now objs s freeBlocks) ↔
      cfg.policy.clearsPromises = true ∨ s.blockManager.promisedBlocks = 0 := by
  constructor
  · intro h
    by_contra hpromised
    rw [not_or, Bool.not_eq_true] at hpromised
    obtain ⟨hkeeps, hpos⟩ := hpromised
    -- ask for a sequence without tokens, with just the watermark free
    have hanswer := (h 0 s.blockManager.watermarkBlocks).answers _ [] .refl
      (.new 0 [] [] 1 none 0 {})
    have hzero : ceilDiv (Sequence.new 0 [] [] 1 none 0 {}).getLen s.blockManager.blockSize =
        0 := by
      show (0 + s.blockManager.blockSize - 1) / s.blockManager.blockSize = 0
      rcases Nat.eq_zero_or_pos s.blockManager.blockSize with hsize | hsize
      · simp [hsize]
      · exact Nat.div_eq_of_lt (by omega)
    simp only [iterationStart, startManager_eq, hkeeps, VAttentionBlockManager.canAllocate,
      VAttentionBlockManager.getNumBlocks, BlockSpaceManager.setFreeBlocks, answerOf, balance,
      List.foldl_nil, hzero] at hanswer
    simp at hanswer
    omega
  · intro hpromised now freeBlocks
    refine ⟨fun τ hsteps => hsteps.exists_calls, fun τ calls hcalls seq => ?_⟩
    have hledger := hcalls.ledger hnodup hactive
    have hleftover : (if cfg.policy.clearsPromises then 0 else s.blockManager.promisedBlocks) =
        0 := by
      rcases hpromised with hclears | hnone
      · rw [if_pos hclears]
      · rw [hnone, ite_self]
    rw [hleftover] at hledger
    have hfree := hledger.free
    have hpromises := hledger.promised
    have hsize := hledger.blockSize
    have hwatermark := hledger.watermark
    simp only [LoopState.recorded, Nat.zero_add] at hfree hpromises hsize hwatermark
    simp only [VAttentionBlockManager.canAllocate, VAttentionBlockManager.getNumBlocks, answerOf,
      hfree, hpromises, hsize, hwatermark]

end VAttention.Scheduler
