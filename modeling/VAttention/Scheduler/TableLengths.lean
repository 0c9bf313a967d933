import VAttention.Core.TableLengths
import VAttention.Scheduler.Paging

/-!
# What a round of scheduling does to the lengths of the tables

The loops free, grow and allocate tables in an order that depends on the free blocks.  Whatever
they do, in the end the lengths are those of `replayed`: the evicted sequences have lost their
tables, the tables of the batch reach the logical blocks, and the others are as before.
-/

namespace VAttention.Scheduler

open VAttention.Core VAttention.Lib Relation

variable {cfg : SchedulerConfig} {now : Time} {numBlocks : Nat} {objs₀ : Heap}
  {m₀ : PagedBlockManager} {σ σ' : LoopState PagedBlockManager} {id : SeqId} {phase : Phase}
  {W R : List SeqId}

/-! ## The invariant -/

/-- The blocks that a sequence has kept, from those it had in `m₀`. -/
def keptBlocks (m₀ : PagedBlockManager) (preempted : List SeqId) (id : SeqId) : Nat :=
  if id ∈ preempted then 0 else (m₀.tableLength id).getD 0

/-- The lengths of the tables in the loops of a call that started with `m₀`. -/
structure GrowsFrom (objs₀ : Heap) (m₀ : PagedBlockManager) (σ : LoopState PagedBlockManager) :
    Prop where
  perPrompt : σ.blockManager.requestNumBlocks = none
  /-- Outside the batch an active sequence has the table it had. -/
  kept : ∀ id ∈ σ.active, id ∉ scheduledIds σ.scheduled →
    σ.blockManager.tableLength id = m₀.tableLength id
  /-- In the batch a table only grows, and not beyond the logical blocks. -/
  batch : ∀ id ∈ scheduledIds σ.scheduled, ∀ n, σ.blockManager.tableLength id = some n →
    keptBlocks m₀ σ.preempted id ≤ n ∧
      n ≤ max (keptBlocks m₀ σ.preempted id) (objs₀ id).logicalTokenBlocks.length

/-- Sequences move between the lists. -/
theorem GrowsFrom.move (h : GrowsFrom objs₀ m₀ σ) (hmanager : σ'.blockManager = σ.blockManager)
    (hactive : ∀ id ∈ σ'.active, id ∈ σ.active) (hscheduled : σ'.scheduled = σ.scheduled)
    (hpreempted : σ'.preempted = σ.preempted) : GrowsFrom objs₀ m₀ σ' where
  perPrompt := by rw [hmanager]; exact h.perPrompt
  kept id hid hnot := by
    rw [hmanager]
    exact h.kept id (hactive id hid) (hscheduled ▸ hnot)
  batch id hid := by
    rw [hmanager, hpreempted]
    exact h.batch id (hscheduled ▸ hid)

/-- A sequence joins the batch, perhaps with a new table. -/
theorem GrowsFrom.join (h : GrowsFrom objs₀ m₀ σ) (id : SeqId)
    (hprompt : σ'.blockManager.requestNumBlocks = none)
    (hother : ∀ a, a ≠ id → σ'.blockManager.tableLength a = σ.blockManager.tableLength a)
    (hself : ∀ n, σ'.blockManager.tableLength id = some n →
      keptBlocks m₀ σ.preempted id ≤ n ∧
        n ≤ max (keptBlocks m₀ σ.preempted id) (objs₀ id).logicalTokenBlocks.length)
    (hactive : ∀ a ∈ σ'.active, a = id ∨ a ∈ σ.active)
    (hscheduled : scheduledIds σ'.scheduled = scheduledIds σ.scheduled ++ [id])
    (hpreempted : σ'.preempted = σ.preempted) : GrowsFrom objs₀ m₀ σ' where
  perPrompt := hprompt
  kept a ha hnot := by
    rw [hscheduled, List.mem_append, List.mem_singleton, not_or] at hnot
    rw [hother a hnot.2]
    exact h.kept a ((hactive a ha).resolve_left hnot.2) hnot.1
  batch a ha := by
    rw [hpreempted]
    by_cases heq : a = id
    · exact heq ▸ hself
    · rw [hscheduled, List.mem_append, List.mem_singleton] at ha
      rw [hother a heq]
      exact h.batch a (ha.resolve_right heq)

/-- A sequence of the queue joins the batch with a table that has its old length, or one more
    block if that was too short. -/
theorem GrowsFrom.joinPending (h : GrowsFrom objs₀ m₀ σ) (hinv : LoopInv cfg now W R objs₀ σ)
    (hnodup : (W ++ R).Nodup) (hpending : id ∈ σ.pending)
    (hprompt : σ'.blockManager.requestNumBlocks = none)
    (hother : ∀ a, a ≠ id → σ'.blockManager.tableLength a = σ.blockManager.tableLength a)
    (hself : ∀ n', σ'.blockManager.tableLength id = some n' → ∃ n,
      σ.blockManager.tableLength id = some n ∧
        (n' = n ∨ n' = n + 1 ∧ n < (σ.objs id).logicalTokenBlocks.length))
    (hactive : ∀ a ∈ σ'.active, a = id ∨ a ∈ σ.active)
    (hscheduled : scheduledIds σ'.scheduled = scheduledIds σ.scheduled ++ [id])
    (hpreempted : σ'.preempted = σ.preempted) : GrowsFrom objs₀ m₀ σ' := by
  obtain ⟨-, hign, hnew, -, hpre⟩ := hinv.of_pending hnodup hpending
  have hactive' : id ∈ σ.active := by simp [LoopState.active, hpending]
  refine h.join id hprompt hother (fun n' hn' => ?_) hactive hscheduled hpreempted
  obtain ⟨n, hn, hgrown⟩ := hself n' hn'
  have hkept : keptBlocks m₀ σ.preempted id = n := by
    rw [keptBlocks, if_neg hpre, ← h.kept id hactive' hnew, hn, Option.getD_some]
  rw [hkept, ← hinv.objs_eq id hign]
  omega

/-- The last sequence of the queue loses its table. -/
theorem GrowsFrom.freeLast (h : GrowsFrom objs₀ m₀ σ) (hinv : LoopInv cfg now W R objs₀ σ)
    (hnodup : (W ++ R).Nodup) {victim : SeqId} {rest : List SeqId}
    (hpending : σ.pending = rest ++ [victim])
    (hmanager : σ'.blockManager = σ.blockManager.free victim)
    (hactive : σ'.active = rest ++ σ.running ++ σ.runningPrefills)
    (hscheduled : σ'.scheduled = σ.scheduled)
    (hpreempted : σ'.preempted = σ.preempted ++ [victim]) : GrowsFrom objs₀ m₀ σ' := by
  have hother : ∀ a, a ≠ victim →
      σ'.blockManager.tableLength a = σ.blockManager.tableLength a := by
    intro a ha
    rw [hmanager, PagedBlockManager.tableLength_free, Function.update_of_ne ha]
  -- the victim is in the queue once, and nowhere else
  have hgone : victim ∉ rest ++ σ.running ++ σ.runningPrefills := by
    have hone := hinv.occurrences_le hnodup victim
    simp only [LoopState.occurrences, hpending, List.count_append, List.count_singleton_self]
      at hone
    simp only [← List.count_eq_zero, List.count_append]
    omega
  constructor
  case perPrompt =>
    rw [hmanager, PagedBlockManager.requestNumBlocks_free]
    exact h.perPrompt
  case kept =>
    intro a ha hnot
    rw [hactive] at ha
    rw [hother a (ne_of_mem_of_not_mem ha hgone)]
    refine h.kept a ?_ (hscheduled ▸ hnot)
    simp only [LoopState.active, hpending, List.mem_append] at ha ⊢
    tauto
  case batch =>
    intro a ha
    rw [hscheduled] at ha
    have hrunning := hinv.scheduled_running a ha
    have hne : a ≠ victim := by
      rintro rfl
      exact hgone (by simp [hrunning])
    have hkept : keptBlocks m₀ σ'.preempted a = keptBlocks m₀ σ.preempted a := by
      simp [keptBlocks, hpreempted, hne]
    rw [hother a hne, hkept]
    exact h.batch a ha

/-- **Step lemma**: every turn of every loop keeps the invariant. -/
theorem SchedStep.growsFrom (hstep : SchedStep cfg now phase σ σ')
    (hinv : LoopInv cfg now W R objs₀ σ) (hnodup : (W ++ R).Nodup)
    (hW : ∀ id ∈ W, m₀.tableLength id = none) (h : GrowsFrom objs₀ m₀ σ) :
    GrowsFrom objs₀ m₀ σ' := by
  cases hstep with
  | keep hpending | setAside hpending =>
    refine h.move rfl (fun a ha => ?_) rfl rfl
    simp only [LoopState.active, hpending, List.mem_append, List.mem_cons, List.not_mem_nil,
      or_false] at ha ⊢
    tauto
  | @decode _ _ id rest manager hpending hready hcan happend =>
    obtain ⟨n, hn, hlengths⟩ := PagedBlockManager.tableLength_appendSlot happend
    have hmem : id ∈ σ.pending := by simp [hpending]
    refine h.joinPending hinv hnodup hmem ?_ (fun a ha => ?_) (fun n' hn' => ?_)
      (fun a ha => ?_) (by simp [scheduledIds]) rfl
    · exact (PagedBlockManager.requestNumBlocks_appendSlot happend).trans h.perPrompt
    · dsimp only
      rw [hlengths, Function.update_of_ne ha]
    · dsimp only at hn'
      rw [hlengths, Function.update_self, Option.some.injEq] at hn'
      refine ⟨n, hn, ?_⟩
      split_ifs at hn' <;> omega
    · simp only [LoopState.active, hpending, List.mem_append, List.mem_cons, List.not_mem_nil,
        or_false] at ha ⊢
      tauto
  | preempt hpending => exact h.freeLast hinv hnodup hpending rfl rfl rfl rfl
  | @prefill _ id rest chunkLen hpending hprompt =>
    have hmem : id ∈ σ.pending := by simp [hpending]
    refine h.joinPending hinv hnodup hmem h.perPrompt (fun _ _ => rfl)
      (fun n hn => ⟨n, hn, .inl rfl⟩) (fun a ha => ?_) (by simp [scheduledIds, schedulePrefill]) rfl
    simp only [LoopState.active, schedulePrefill, hpending, List.mem_append, List.mem_cons,
      List.not_mem_nil, or_false] at ha ⊢
    tauto
  | @orcaDecode _ id rest hpending hready =>
    have hmem : id ∈ σ.pending := by simp [hpending]
    refine h.joinPending hinv hnodup hmem h.perPrompt (fun _ _ => rfl)
      (fun n hn => ⟨n, hn, .inl rfl⟩) (fun a ha => ?_) (by simp [scheduledIds]) rfl
    simp only [LoopState.active, hpending, List.mem_append, List.mem_cons, List.not_mem_nil,
      or_false] at ha ⊢
    tauto
  | ignore => exact h.move rfl (fun _ ha => ha) rfl rfl
  | @enter _ id rest manager _ _ hwaiting _ _ hcan hallocate =>
    have hlengths := PagedBlockManager.tableLength_allocate h.perPrompt hallocate
    have hmem : id ∈ σ.waiting := by simp [hwaiting]
    obtain ⟨-, hign, -⟩ := hinv.of_waiting hnodup hmem
    -- a waiting sequence has no table, or has just lost it
    have hkept : keptBlocks m₀ σ.preempted id = 0 := by
      rcases hinv.waiting id hmem with hold | hpre
      · simp [keptBlocks, hW id hold]
      · simp [keptBlocks, hpre]
    refine h.join id ?_ (fun a ha => ?_) (fun n hn => ?_) (fun a ha => ?_)
      (by simp [scheduledIds]) rfl
    · exact (PagedBlockManager.requestNumBlocks_allocate hallocate).trans h.perPrompt
    · dsimp only
      rw [hlengths, Function.update_of_ne ha]
    · dsimp only at hn
      rw [hlengths, Function.update_self, Option.some.injEq] at hn
      rw [hkept, ← hinv.objs_eq id hign]
      omega
    · simp only [LoopState.active, List.mem_append, List.mem_singleton] at ha ⊢
      tauto
  | requeue horder hpending hscheduled =>
    refine h.move rfl (fun a ha => ?_) rfl rfl
    simpa [LoopState.active, hpending, horder.mem_iff] using ha
  | takePrefills hpending =>
    refine h.move rfl (fun a ha => ?_) rfl rfl
    simp only [LoopState.active, hpending, List.mem_append, List.not_mem_nil, or_false, false_or]
      at ha ⊢
    tauto

/-- **Run lemma**: so does every sequence of turns. -/
theorem SchedSteps.growsFrom (hsteps : SchedSteps cfg now σ σ') (hnodup : (W ++ R).Nodup)
    (hW : ∀ id ∈ W, m₀.tableLength id = none) (hinv : LoopInv cfg now W R objs₀ σ)
    (h : GrowsFrom objs₀ m₀ σ) : GrowsFrom objs₀ m₀ σ' := by
  have hboth := reflTransGen_invariant
    (fun σ => LoopInv cfg now W R objs₀ σ ∧ GrowsFrom objs₀ m₀ σ)
    (fun _ _ ⟨_, hstep⟩ ⟨hinv, hgrows⟩ =>
      ⟨hstep.loopInv hnodup hinv, hstep.growsFrom hinv hnodup hW hgrows⟩) hsteps ⟨hinv, h⟩
  exact hboth.2

/-! ## A call of `schedule` -/

theorem schedule_growsFrom {objs objs' : Heap} {s s' : SchedulerState PagedBlockManager}
    {out : SchedulerOutputs} (h : PagedState numBlocks objs s)
    (hschedule : schedule cfg now objs s = .ok (objs', s', out)) :
    (∀ id ∈ s'.running, id ∉ out.batchIds →
      s'.blockManager.tableLength id = s.blockManager.tableLength id) ∧
    ∀ id ∈ out.batchIds, ∀ n, s'.blockManager.tableLength id = some n →
      keptBlocks s.blockManager out.preemptedSeqIds id ≤ n ∧
        n ≤ max (keptBlocks s.blockManager out.preemptedSeqIds id)
          (objs id).logicalTokenBlocks.length := by
  rcases schedule_eq_ok hschedule with ⟨-, rfl, rfl⟩ | ⟨σ, turn, hrun, -, rfl, rfl⟩
  · exact ⟨fun _ _ _ => rfl, nofun⟩
  have hW : ∀ id ∈ s.waiting, s.blockManager.tableLength id = none := by
    intro id hid
    rw [PagedBlockManager.tableLength_eq_none, h.owners]
    exact fun hrunning => (List.nodup_append.mp h.nodup).2.2 id hid id hrunning rfl
  obtain ⟨hsteps, -⟩ := runPolicy_steps ⟨⟨rfl, rfl⟩, rfl⟩ hrun
  have hclear : cfg.startManager s.blockManager = s.blockManager := by
    unfold SchedulerConfig.startManager
    split <;> rfl
  have hstart : GrowsFrom objs s.blockManager
      { s.start objs with blockManager := cfg.startManager s.blockManager } := by
    rw [hclear]
    exact ⟨h.perPrompt, fun _ _ _ => rfl, by simp [SchedulerState.start, scheduledIds]⟩
  have hgrows := SchedSteps.growsFrom hsteps h.nodup hW (LoopInv.start cfg now objs s _) hstart
  refine ⟨fun id hid hnot => hgrows.kept id ?_ hnot, hgrows.batch⟩
  simp [LoopState.active, show id ∈ σ.running from hid]

/-- **The net effect of scheduling**: however the loops interleave their calls, afterwards the
    lengths of the tables are those of `replayed`. -/
theorem schedule_tableLength {objs objs' : Heap} {s s' : SchedulerState PagedBlockManager}
    {out : SchedulerOutputs} (hpolicy : cfg.policy.evictsYoungest = true)
    (h : PagedState numBlocks objs s)
    (hschedule : schedule cfg now objs s = .ok (objs', s', out)) (id : SeqId) :
    s'.blockManager.tableLength id = replayed out
      (fun id => (objs id).logicalTokenBlocks.length) s.blockManager.tableLength id := by
  have hspec := schedule_spec h.nodup hschedule
  obtain ⟨hstate, hcovered⟩ := (schedule_paged now hpolicy h).of_eq_ok hschedule
  obtain ⟨hkept, hgrown⟩ := schedule_growsFrom h hschedule
  have hdisjoint := (List.nodup_append.mp h.nodup).2.2
  unfold replayed
  dsimp only
  by_cases hbatch : id ∈ out.batchIds
  · -- an entry is covered, and its table has not grown further than that
    obtain ⟨-, hign, hobjs⟩ := hspec.objs_of_mem h.nodup
      (List.mem_append_right _ (hspec.batch_running id hbatch))
    obtain ⟨table, hlookup, hcovers⟩ := hcovered id hbatch
    have hlength : s'.blockManager.tableLength id = some table.length :=
      PagedBlockManager.tableLength_eq_some.mpr ⟨table, hlookup, rfl⟩
    obtain ⟨hle, hge⟩ := hgrown id hbatch table.length hlength
    have hreached : (objs id).logicalTokenBlocks.length ≤ table.length := hobjs ▸ hcovers
    have hleft : (if id ∈ out.ignoredSeqIds ∨ id ∈ out.preemptedSeqIds then none
        else s.blockManager.tableLength id).getD 0 =
          keptBlocks s.blockManager out.preemptedSeqIds id := by
      unfold keptBlocks
      by_cases hpre : id ∈ out.preemptedSeqIds
      · simp [hpre]
      · simp [hpre, hign]
    rw [if_pos hbatch, hlength, hleft, Option.some.injEq]
    omega
  rw [if_neg hbatch]
  by_cases hrunning : id ∈ s'.running
  · -- untouched
    obtain ⟨-, hpre⟩ := (hspec.running id hrunning).resolve_left hbatch
    have hign := (hspec.objs_of_mem h.nodup (List.mem_append_right _ hrunning)).2.1
    rw [if_neg (not_or.mpr ⟨hign, hpre⟩)]
    exact hkept id hrunning hbatch
  · -- what does not run has no table, and had none unless it was evicted
    have hnone : s'.blockManager.tableLength id = none := by
      rw [PagedBlockManager.tableLength_eq_none, hstate.owners]
      exact hrunning
    rw [hnone]
    split_ifs with hleft
    · rfl
    rw [not_or] at hleft
    rw [eq_comm, PagedBlockManager.tableLength_eq_none, h.owners]
    intro hold
    have hmem := hspec.perm.mem_iff.mpr (List.mem_append_right s.waiting hold)
    simp only [List.mem_append] at hmem
    rcases hmem with hwaiting | hrun | hign
    · rcases hspec.waiting id hwaiting with hwas | hpre
      · exact hdisjoint id hwas id hold rfl
      · exact hleft.2 hpre
    · exact hrunning hrun
    · exact hleft.1 hign

end VAttention.Scheduler
