import VAttention.Allocator.Layout
import VAttention.Lib.Runs

/-!
# The flag between the API and the background manager

`step_async` and `cleanup` spin until `mem_manager_running` is false, and `step_async` ends by
spawning a detached thread that sets the flag, manages the memory and clears the flag.  The
statements of the calls and of the threads are interleaved in any order.

The thread sets the flag itself, so between the spawn and its first statement the flag says
nothing about it.  A call that comes in that window passes the wait and works on the page tables
together with the manager.
-/

namespace VAttention.Allocator

open VAttention.Lib

/-- The calls that wait for the background manager. -/
inductive ApiCall where
  | stepAsync (seqLens : Nat → Nat)
  | cleanup

/-- Where a call is. -/
inductive CallPhase where
  /-- Spinning in `wait_kvcache_manager_sync`. -/
  | waiting
  /-- Past the wait, in `prepare_prefill_kvcache` or in `DO_KVCACHE_CLEANUP`. -/
  | working
  /-- At `spawn_kvcache_manager`. -/
  | spawning
  | returned
  deriving DecidableEq, Repr

/-- The call has passed the wait and has not returned. -/
def CallPhase.pastWait : CallPhase → Bool
  | .working | .spawning => true
  | .waiting | .returned => false

/-- Where a manager thread is. -/
inductive ManagerPhase where
  /-- Before its first statement, `mem_manager_running = true`. -/
  | spawned
  /-- In `do_kvcache_memory_management`. -/
  | managing
  /-- Before its last statement, `mem_manager_running = false`. -/
  | managed
  | exited
  deriving DecidableEq, Repr

/-- The thread has finished its memory management. -/
def ManagerPhase.finished : ManagerPhase → Bool
  | .managed | .exited => true
  | .spawned | .managing => false

/-- The allocator with the calls made and the threads spawned so far, in order. -/
structure Machine where
  alloc : State
  memManagerRunning : Bool
  calls : List (ApiCall × CallPhase)
  threads : List ManagerPhase

def Machine.start (alloc : State) : Machine where
  alloc
  memManagerRunning := false
  calls := []
  threads := []

/-- One atomic statement of a call or of a thread. -/
inductive SyncEvent where
  /-- Enter the API; `step_async` records the lengths at once. -/
  | call (c : ApiCall)
  /-- Call `i` finds the flag cleared. -/
  | passWait (i : Nat)
  /-- Call `i` does its work on the page tables. -/
  | work (i : Nat)
  /-- Call `i` spawns a thread and returns. -/
  | spawn (i : Nat)
  /-- Thread `t` sets the flag. -/
  | threadStart (t : Nat)
  /-- Thread `t` manages the memory. -/
  | threadManage (t : Nat)
  /-- Thread `t` clears the flag. -/
  | threadExit (t : Nat)

/-- The statement cannot be executed now. -/
inductive Blocked where
  | notThere
  | spinning
  deriving DecidableEq, Repr

/-- Effect of one statement. -/
def SyncEvent.exec (cfg : Config) (event : SyncEvent) (m : Machine) : Except Blocked Machine :=
  match event with
  | .call c =>
    let alloc := match c with
      | .stepAsync seqLens => { m.alloc with currSeqLengths := seqLens }
      | .cleanup => m.alloc
    .ok { m with alloc, calls := m.calls ++ [(c, .waiting)] }
  | .passWait i =>
    match m.calls[i]? with
    | some (c, .waiting) =>
      if m.memManagerRunning then .error .spinning
      else .ok { m with calls := m.calls.set i (c, .working) }
    | _ => .error .notThere
  | .work i =>
    match m.calls[i]? with
    | some (.stepAsync seqLens, .working) =>
      match preparePrefillKvcache cfg m.alloc with
      | .done alloc => .ok { m with alloc, calls := m.calls.set i (.stepAsync seqLens, .spawning) }
      -- the exception leaves `step_async` before the spawn
      | .throw _ alloc =>
        .ok { m with alloc, calls := m.calls.set i (.stepAsync seqLens, .returned) }
    | some (.cleanup, .working) =>
      .ok { m with
        alloc := (Allocator.cleanup cfg m.alloc).1
        calls := m.calls.set i (.cleanup, .returned) }
    | _ => .error .notThere
  | .spawn i =>
    match m.calls[i]? with
    | some (c, .spawning) =>
      .ok { m with calls := m.calls.set i (c, .returned), threads := m.threads ++ [.spawned] }
    | _ => .error .notThere
  | .threadStart t =>
    match m.threads[t]? with
    | some .spawned =>
      .ok { m with memManagerRunning := true, threads := m.threads.set t .managing }
    | _ => .error .notThere
  | .threadManage t =>
    match m.threads[t]? with
    | some .managing =>
      .ok { m with
        alloc := (doKvcacheMemoryManagement cfg m.alloc).state
        threads := m.threads.set t .managed }
    | _ => .error .notThere
  | .threadExit t =>
    match m.threads[t]? with
    | some .managed =>
      .ok { m with memManagerRunning := false, threads := m.threads.set t .exited }
    | _ => .error .notThere

/-- A run of statements, in the order in which they happen. -/
def Machine.run (cfg : Config) (events : List SyncEvent) (m : Machine) : Except Blocked Machine :=
  events.foldlM (fun m event => event.exec cfg m) m

/-- When a call has passed the wait, all threads spawned so far have finished their memory
    management; and at most one of the calls and the threads is working on the page tables. -/
structure MutuallyExcluded (m : Machine) : Prop where
  waited : ∀ call ∈ m.calls, call.2.pastWait = true → ∀ t ∈ m.threads, t.finished = true
  single : m.calls.countP (fun call => call.2 == .working) +
    m.threads.countP (fun t => t == .managing) ≤ 1

/-- A call passes the wait only when every thread spawned so far has set the flag, and when no
    other call is past the wait. -/
def synchronised (m : Machine) : SyncEvent → Bool
  | .passWait _ =>
    m.threads.all (fun t => t != .spawned) && m.calls.all fun call => !call.2.pastWait
  | _ => true

/-! ## The invariant of synchronised runs -/

/-- At most one party is between its entry and its exit, and a cleared flag means that no thread
    is between setting and clearing it. -/
structure SyncInv (m : Machine) : Prop where
  one : m.calls.countP (fun call => call.2.pastWait) +
    m.threads.countP (fun t => t != .exited) ≤ 1
  flag : m.memManagerRunning = false → ∀ t ∈ m.threads, t = .spawned ∨ t = .exited

theorem SyncInv.start (alloc : State) : SyncInv (.start alloc) :=
  ⟨Nat.zero_le _, fun _ _ ht => nomatch ht⟩

variable {cfg : Config} {m m' : Machine}

/-- A call that moves on without entering or leaving the critical part, or that leaves it. -/
theorem SyncInv.setCall (h : SyncInv m) {i : Nat} {c c' : ApiCall} {phase phase' : CallPhase}
    (alloc : State) (hcall : m.calls[i]? = some (c, phase))
    (hphase : phase'.pastWait = true → phase.pastWait = true) :
    SyncInv { m with alloc, calls := m.calls.set i (c', phase') } := by
  refine ⟨?_, h.flag⟩
  have hcount := countP_set_add (p := fun call => call.2.pastWait) (b := (c', phase')) hcall
  have hone := h.one
  dsimp only at hcount ⊢
  -- the count can only fall: a phase before the wait stays before it
  revert hphase hcount
  cases phase'.pastWait <;> cases phase.pastWait <;> simp <;> omega

/-- A thread that moves on, between its spawn and its exit. -/
theorem SyncInv.setThread (h : SyncInv m) {t : Nat} {phase phase' : ManagerPhase} (alloc : State)
    (flag : Bool) (hthread : m.threads[t]? = some phase) (hphase : phase ≠ .exited)
    (hflag : flag = true) :
    SyncInv { m with alloc, memManagerRunning := flag, threads := m.threads.set t phase' } := by
  have hcount := countP_set_add (p := fun t => t != .exited) (b := phase') hthread
  have hone := h.one
  constructor
  · have hlive : (phase != .exited) = true := by simpa using hphase
    rw [hlive] at hcount
    have hle := Bool.toNat_le (phase' != .exited)
    simp only [Bool.toNat_true] at hcount
    dsimp only
    omega
  · intro hcleared
    rw [hflag] at hcleared
    cases hcleared

/-- A call that passes the wait, when every thread has set the flag and no other call is past
    the wait. -/
theorem SyncInv.enter (h : SyncInv m) {i : Nat} {c : ApiCall} {phase : CallPhase}
    (hcall : m.calls[i]? = some (c, phase)) (hphase : phase.pastWait = false)
    (hcleared : m.memManagerRunning = false) (hset : ∀ t ∈ m.threads, t ≠ .spawned)
    (halone : ∀ call ∈ m.calls, call.2.pastWait = false) :
    SyncInv { m with calls := m.calls.set i (c, .working) } := by
  refine ⟨?_, h.flag⟩
  -- the flag is cleared and every thread has set it, so all of them have exited
  have hthreads : m.threads.countP (fun t => t != .exited) = 0 := by
    apply List.countP_eq_zero.mpr
    intro t ht
    rcases h.flag hcleared t ht with hs | he
    · exact absurd hs (hset t ht)
    · simp [he]
  have hcalls : m.calls.countP (fun call => call.2.pastWait) = 0 := by
    apply List.countP_eq_zero.mpr
    intro call hc
    simp [halone call hc]
  have hcount := countP_set_add (p := fun call => call.2.pastWait) (b := (c, .working)) hcall
  rw [hphase] at hcount
  change _ + 0 = _ + 1 at hcount
  dsimp only
  omega

/-- A call that returns and leaves a new thread in its place. -/
theorem SyncInv.spawn (h : SyncInv m) {i : Nat} {c : ApiCall} {phase : CallPhase}
    (hcall : m.calls[i]? = some (c, phase)) (hphase : phase.pastWait = true) :
    SyncInv { m with
      calls := m.calls.set i (c, .returned), threads := m.threads ++ [.spawned] } := by
  have hcount := countP_set_add (p := fun call => call.2.pastWait) (b := (c, .returned)) hcall
  have hone := h.one
  refine ⟨?_, fun hflag t ht => ?_⟩
  · rw [hphase] at hcount
    change _ + 1 = _ + 0 at hcount
    simp only [List.countP_append, List.countP_singleton]
    simp only [bne_iff_ne, ne_eq, reduceCtorEq, not_false_eq_true, if_true]
    omega
  · rcases List.mem_append.mp ht with ht | ht
    · exact h.flag hflag t ht
    · exact .inl (List.mem_singleton.mp ht)

/-- A thread that exits and clears the flag: it was the only one that had not exited. -/
theorem SyncInv.exitThread (h : SyncInv m) {t : Nat} {phase : ManagerPhase}
    (hthread : m.threads[t]? = some phase) (hphase : phase ≠ .exited) :
    SyncInv { m with memManagerRunning := false, threads := m.threads.set t .exited } := by
  have hcount := countP_set_add (p := fun t => t != .exited) (b := ManagerPhase.exited) hthread
  have hone := h.one
  have hlive : (phase != .exited) = true := by simpa using hphase
  rw [hlive] at hcount
  simp only [bne_self_eq_false, Bool.toNat_false, Bool.toNat_true] at hcount
  refine ⟨by dsimp only; omega, fun _ t' ht' => ?_⟩
  have hnone : (m.threads.set t .exited).countP (fun t => t != .exited) = 0 := by omega
  have hexited := List.countP_eq_zero.mp hnone t' ht'
  exact .inr (by simpa using hexited)

/-- The flag is set while a thread is managing memory. -/
theorem SyncInv.flag_of_managing (h : SyncInv m) {t : Nat}
    (hthread : m.threads[t]? = some .managing) : m.memManagerRunning = true := by
  by_contra hflag
  rcases h.flag (by simpa using hflag) _ (List.mem_of_getElem? hthread) with hs | he
  · cases hs
  · cases he

/-- **Step lemma**: synchronised statements keep the invariant. -/
theorem SyncInv.exec {event : SyncEvent} (h : SyncInv m) (hguard : synchronised m event = true)
    (hexec : event.exec cfg m = .ok m') : SyncInv m' := by
  cases event with
  | call c =>
    cases hexec
    -- a new call starts at the wait
    refine ⟨?_, h.flag⟩
    simpa [CallPhase.pastWait] using h.one
  | passWait i =>
    simp only [SyncEvent.exec] at hexec
    split at hexec
    case h_2 => cases hexec
    case h_1 c hcall =>
      split_ifs at hexec with hflag
      cases hexec
      simp only [synchronised, Bool.and_eq_true, List.all_eq_true, bne_iff_ne, ne_eq,
        Bool.not_eq_true'] at hguard
      exact h.enter hcall rfl (by simpa using hflag) hguard.1 hguard.2
  | work i =>
    simp only [SyncEvent.exec] at hexec
    -- whatever the work does to the page tables, the call stays past the wait or returns
    split at hexec
    case h_1 seqLens hcall =>
      split at hexec
      · cases hexec
        exact h.setCall _ hcall fun _ => rfl
      · cases hexec
        exact h.setCall _ hcall fun _ => rfl
    case h_2 hcall =>
      cases hexec
      exact h.setCall _ hcall fun _ => rfl
    case h_3 => cases hexec
  | spawn i =>
    simp only [SyncEvent.exec] at hexec
    split at hexec
    case h_2 => cases hexec
    case h_1 c hcall =>
      cases hexec
      exact h.spawn hcall rfl
  | threadStart t =>
    simp only [SyncEvent.exec] at hexec
    split at hexec
    case h_2 => cases hexec
    case h_1 hthread =>
      cases hexec
      -- setting the flag is what the second part asks for
      exact h.setThread _ true hthread (by decide) rfl
  | threadManage t =>
    simp only [SyncEvent.exec] at hexec
    split at hexec
    case h_2 => cases hexec
    case h_1 hthread =>
      cases hexec
      exact h.setThread _ _ hthread (by decide) (h.flag_of_managing hthread)
  | threadExit t =>
    simp only [SyncEvent.exec] at hexec
    split at hexec
    case h_2 => cases hexec
    case h_1 hthread =>
      cases hexec
      exact h.exitThread hthread (by decide)

theorem SyncInv.mutuallyExcluded (h : SyncInv m) : MutuallyExcluded m := by
  have hone := h.one
  constructor
  -- a call past the wait is the one party, so no thread is left
  · intro call hcall hpast t ht
    have hcalls : 0 < m.calls.countP (fun call => call.2.pastWait) :=
      List.countP_pos_iff.mpr ⟨call, hcall, hpast⟩
    have hthreads : m.threads.countP (fun t => t != .exited) = 0 := by omega
    have hexited := List.countP_eq_zero.mp hthreads t ht
    have heq : t = .exited := by simpa using hexited
    rw [heq]
    rfl
  -- those at work are among those the invariant counts
  · have hcalls : m.calls.countP (fun call => call.2 == .working) ≤
        m.calls.countP (fun call => call.2.pastWait) := by
      apply List.countP_mono_left
      intro call _ hworking
      rw [beq_iff_eq] at hworking
      rw [hworking]
      rfl
    have hthreads : m.threads.countP (fun t => t == .managing) ≤
        m.threads.countP (fun t => t != .exited) := by
      apply List.countP_mono_left
      intro t _ hmanaging
      rw [beq_iff_eq] at hmanaging
      rw [hmanaging]
      rfl
    omega

/-! ## Runs -/

/-- **The manager and the calls exclude each other in synchronised runs**: in every interleaving in
    which a call passes the wait only when every thread spawned so far has set the flag and no
    other call is past the wait, all threads spawned before have finished their work by then, and
    no two parties work on the page tables at once. -/
theorem mutuallyExcluded_of_synchronised (cfg : Config) (alloc : State) {m : Machine}
    (hreach : Reaches (SyncEvent.exec cfg) (fun m => m = .start alloc)
      (fun m event => synchronised m event = true) m) : MutuallyExcluded m := by
  have hinit : ∀ m, m = .start alloc → SyncInv m := by
    rintro m rfl
    exact .start alloc
  have hinv := hreach.invariant SyncInv hinit fun m event m' h hguard hexec => h.exec hguard hexec
  exact hinv.mutuallyExcluded

/-- The allocator of `denseSetup` with two blocks. -/
def twoBlocks : State := reservePhysicalPages denseSetup.cfg id 262144 State.init

/-- Two steps; the manager of the first one is done before the second one passes the wait. -/
def orderlyRun : List SyncEvent :=
  [.call (.stepAsync fun _ => 1), .passWait 0, .work 0, .spawn 0, .threadStart 0,
    .call (.stepAsync fun _ => 2), .threadManage 0, .threadExit 0, .passWait 1]

theorem orderlyRun_mutuallyExcluded :
    ∃ m, Machine.run denseSetup.cfg orderlyRun (.start twoBlocks) = .ok m ∧
      m.calls.map (·.2) = [.returned, .working] ∧ MutuallyExcluded m := by
  have hphases : (Machine.run denseSetup.cfg orderlyRun (.start twoBlocks)).map
      (fun m => m.calls.map (·.2)) = .ok [.returned, .working] := by decide +kernel
  obtain ⟨m, hrun, hend⟩ := map_eq_ok.mp hphases
  refine ⟨m, hrun, hend, mutuallyExcluded_of_synchronised denseSetup.cfg twoBlocks ?_⟩
  exact Reaches.foldlM (fun _ _ => id) (.init rfl) (by decide +kernel) hrun

/-- Two steps; the second one passes the wait before the manager of the first one has set the
    flag. -/
def overlappingRun : List SyncEvent :=
  [.call (.stepAsync fun _ => 1), .passWait 0, .work 0, .spawn 0,
    .call (.stepAsync fun _ => 2), .passWait 1, .threadStart 0]

/-- The second step is mapping pages while the manager is at work. -/
theorem overlappingRun_not_mutuallyExcluded :
    ∃ m, Machine.run denseSetup.cfg overlappingRun (.start twoBlocks) = .ok m ∧
      m.calls.map (·.2) = [.returned, .working] ∧ m.threads = [.managing] ∧
      ¬ MutuallyExcluded m := by
  have hphases : (Machine.run denseSetup.cfg overlappingRun (.start twoBlocks)).map
      (fun m => (m.calls.map (·.2), m.threads)) = .ok ([.returned, .working], [.managing]) := by
    decide +kernel
  obtain ⟨m, hrun, hend⟩ := map_eq_ok.mp hphases
  obtain ⟨hcalls, hthreads⟩ := Prod.mk.inj hend
  refine ⟨m, hrun, hcalls, hthreads, fun h => ?_⟩
  obtain ⟨call, hcall, hphase⟩ : ∃ call ∈ m.calls, call.2 = .working := by
    have hmem : CallPhase.working ∈ m.calls.map (·.2) := by simp [hcalls]
    exact List.mem_map.mp hmem
  have hfinished := h.waited call hcall (by rw [hphase]; rfl) .managing (by simp [hthreads])
  cases hfinished

end VAttention.Allocator
