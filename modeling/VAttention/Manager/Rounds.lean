import VAttention.Lib.Exits
import VAttention.Manager.Agreement

/-!
# Calls of a sequence manager that do not fail

`on_schedule` and `on_step_completed` assert what they need to know about each sequence.  Here
the assertions of a whole call are collected as a condition on the replica before the call
(`Begins`, and `BeginsAll` for several rounds in a row).  If it holds, the call raises nothing of
its own: an exception comes from a hook, or from the object of a sequence.
-/

namespace VAttention.Manager

open VAttention.Core VAttention.Lib

/-! ## Beginning a round -/

/-- What `on_schedule` asserts, sequence by sequence. -/
structure Begins (out : SchedulerOutputs) (v : SeqId → Sequence × Prop) : Prop where
  ignored : ∀ id ∈ out.ignoredSeqIds, (v id).2
  preempted : ∀ id ∈ out.preemptedSeqIds, (v id).2 ∧ (v id).1.isExecuting = true
  batch : ∀ id ∈ out.batchIds, (v id).2 ∧
    (id ∈ out.preemptedSeqIds ∨ (v id).1.status = .waiting ∨ (v id).1.status = .paused)

/-- The view of a sequence after `on_schedule`. -/
def begun (out : SchedulerOutputs) (id : SeqId) (v : Sequence × Prop) : Sequence × Prop :=
  if id ∈ out.ignoredSeqIds then (v.1, False)
  else if id ∈ out.batchIds then (entering out id v.1, True)
  else if id ∈ out.preemptedSeqIds then (recomputed v.1, True)
  else v

theorem begun_of_not_mem {out : SchedulerOutputs} {id : SeqId} (v : Sequence × Prop)
    (hignored : id ∉ out.ignoredSeqIds) (hpreempted : id ∉ out.preemptedSeqIds)
    (hbatch : id ∉ out.batchIds) : begun out id v = v := by
  rw [begun, if_neg hignored, if_neg hbatch, if_neg hpreempted]

/-- The round drops, evicts or schedules the sequence. -/
def Mentions (out : SchedulerOutputs) (id : SeqId) : Prop :=
  id ∈ out.ignoredSeqIds ∨ id ∈ out.preemptedSeqIds ∨ id ∈ out.batchIds

theorem begun_of_not_mentions {out : SchedulerOutputs} {id : SeqId} (v : Sequence × Prop)
    (h : ¬ Mentions out id) : begun out id v = v :=
  begun_of_not_mem v (fun hid => h (.inl hid)) (fun hid => h (.inr (.inl hid)))
    fun hid => h (.inr (.inr hid))

/-- What is asserted depends on the sequences that the round mentions. -/
theorem Begins.congr {out : SchedulerOutputs} {v v' : SeqId → Sequence × Prop} (h : Begins out v)
    (hsame : ∀ id, Mentions out id → v' id = v id) : Begins out v' where
  ignored id hid := by
    rw [hsame id (.inl hid)]
    exact h.ignored id hid
  preempted id hid := by
    rw [hsame id (.inr (.inl hid))]
    exact h.preempted id hid
  batch id hid := by
    rw [hsame id (.inr (.inr hid))]
    exact h.batch id hid

/-- A round mentions known sequences only. -/
theorem Begins.known {out : SchedulerOutputs} {v : SeqId → Sequence × Prop} (h : Begins out v)
    {id : SeqId} (hid : Mentions out id) : (v id).2 := by
  rcases hid with hid | hid | hid
  · exact h.ignored id hid
  · exact (h.preempted id hid).1
  · exact (h.batch id hid).1

/-! ## Rounds in a row -/

/-- The view of a sequence after several calls of `on_schedule`. -/
def begunAll (rounds : List SchedulerOutputs) (id : SeqId) (v : Sequence × Prop) :
    Sequence × Prop :=
  rounds.foldl (fun v out => begun out id v) v

/-- What several calls of `on_schedule`, one after the other, assert. -/
def BeginsAll : List SchedulerOutputs → (SeqId → Sequence × Prop) → Prop
  | [], _ => True
  | out :: rounds, v => Begins out v ∧ BeginsAll rounds fun id => begun out id (v id)

theorem begunAll_concat (rounds : List SchedulerOutputs) (out : SchedulerOutputs) (id : SeqId)
    (v : Sequence × Prop) :
    begunAll (rounds ++ [out]) id v = begun out id (begunAll rounds id v) := by
  rw [begunAll, List.foldl_append]
  rfl

theorem begunAll_of_not_mentions {rounds : List SchedulerOutputs} {id : SeqId}
    (v : Sequence × Prop) (h : ∀ out ∈ rounds, ¬ Mentions out id) : begunAll rounds id v = v := by
  induction rounds with
  | nil => rfl
  | cons out rounds ih =>
    rw [List.forall_mem_cons] at h
    rw [begunAll, List.foldl_cons, begun_of_not_mentions v h.1]
    exact ih h.2

theorem BeginsAll.concat {rounds : List SchedulerOutputs} {out : SchedulerOutputs}
    {v : SeqId → Sequence × Prop} (h : BeginsAll rounds v)
    (hout : Begins out fun id => begunAll rounds id (v id)) : BeginsAll (rounds ++ [out]) v := by
  induction rounds generalizing v with
  | nil => exact ⟨hout, trivial⟩
  | cons first rounds ih => exact ⟨h.1, ih h.2 hout⟩

theorem BeginsAll.congr {rounds : List SchedulerOutputs} {v v' : SeqId → Sequence × Prop}
    (h : BeginsAll rounds v) (hsame : ∀ out ∈ rounds, ∀ id, Mentions out id → v' id = v id) :
    BeginsAll rounds v' := by
  induction rounds generalizing v v' with
  | nil => trivial
  | cons first rounds ih =>
    rw [List.forall_mem_cons] at hsame
    refine ⟨h.1.congr hsame.1, ih h.2 fun out hout id hid => ?_⟩
    rw [hsame.2 out hout id hid]

/-- Rounds in a row mention known sequences only: a round makes none known. -/
theorem BeginsAll.known {rounds : List SchedulerOutputs} {v : SeqId → Sequence × Prop}
    (h : BeginsAll rounds v) {out : SchedulerOutputs} (hout : out ∈ rounds) {id : SeqId}
    (hid : Mentions out id) : (v id).2 := by
  induction rounds generalizing v with
  | nil => cases hout
  | cons first rounds ih =>
    rcases List.mem_cons.mp hout with rfl | hout
    · exact h.1.known hid
    · by_cases hfirst : Mentions first id
      · exact h.1.known hfirst
      · have hlater := ih h.2 hout
        rwa [begun_of_not_mentions _ hfirst] at hlater

namespace Replica

variable {μ : Type} {hooks : ManagerHooks μ} {out : SchedulerOutputs} {r r' : Replica μ}
  {id : SeqId} {err : PyError}

/-- `on_schedule` as a function of the view. -/
theorem onSchedule_begun (hout : out.WellFormed) (h : onSchedule hooks out r = .ok r')
    (id : SeqId) : r'.view id = begun out id (r.view id) := by
  obtain ⟨hignored, hbatch, hpreempted, hframe⟩ := onSchedule_view hout h
  unfold begun
  split_ifs with hign hbat hpre
  · exact (hignored id hign).2
  · exact (hbatch id hbat).2
  · exact (hpreempted id hpre hbat).2
  · exact hframe id hign hpre hbat

theorem assertKnown_error (h : r.assertKnown id = .error err) : id ∉ r.seqMap := by
  intro hknown
  rw [assertKnown, assertThat, if_pos (by simpa using hknown)] at h
  cases h

theorem freeSeq_error (h : freeSeq hooks r id = .error err) : id ∉ r.seqMap := by
  rcases seq_eq_error.mp h with h | ⟨_, -, h⟩
  · exact assertKnown_error h
  · cases h

/-- An executing sequence can be reset. -/
theorem preemptSeq_error (h : preemptSeq hooks r id = .error err) :
    id ∉ r.seqMap ∨ (r.objs id).isExecuting = false := by
  rcases seq_eq_error.mp h with h | ⟨⟨⟩, -, h⟩
  · exact .inl (assertKnown_error h)
  cases hexecuting : (r.objs id).isExecuting with
  | false => exact .inr rfl
  | true =>
    exfalso
    rcases seq_eq_error.mp h with h | ⟨⟨⟩, -, h⟩
    · simp [assertThat, hexecuting] at h
    rcases seq_eq_error.mp h with h | ⟨_, -, h⟩
    · rcases seq_eq_error.mp h with h | ⟨_, -, h⟩
      · unfold Sequence.setStatus at h
        split_ifs at h with hbecome
        revert hexecuting hbecome
        unfold Sequence.isExecuting
        cases (r.objs id).status <;> simp [SequenceStatus.isExecuting, SequenceStatus.canBecome]
      · cases h
    · cases h

/-- Resuming a sequence that waits or pauses raises what the hook raises. -/
theorem onSeqScheduled_error {m : SequenceScheduleMetadata}
    (hknown : m.seqId ∈ r.seqMap)
    (hstatus : (r.objs m.seqId).status = .waiting ∨ (r.objs m.seqId).status = .paused)
    (h : onSeqScheduled hooks r m = .error err) :
    hooks.onScheduled m.seqId { r.objs m.seqId with status := .running } r.ext = .error err := by
  rcases seq_eq_error.mp h with h | ⟨⟨⟩, -, h⟩
  · exact absurd hknown (assertKnown_error h)
  rcases seq_eq_error.mp h with h | ⟨r₁, hresume, h⟩
  · exfalso
    rcases seq_eq_error.mp h with h | ⟨⟨⟩, -, h⟩
    · exact assertKnown_error h hknown
    rcases seq_eq_error.mp h with h | ⟨⟨⟩, -, h⟩
    · rcases hstatus with hstatus | hstatus <;>
        simp [assertThat, Sequence.isWaiting, Sequence.isPaused, hstatus] at h
    rcases seq_eq_error.mp h with h | ⟨_, -, h⟩
    · unfold Sequence.setStatus at h
      rcases hstatus with hstatus | hstatus <;> simp [hstatus, SequenceStatus.canBecome] at h
    · cases h
  · obtain ⟨-, -, rfl⟩ := resumeSeq_eq_ok hresume
    rcases seq_eq_error.mp h with h | ⟨_, -, h⟩
    · simpa [setSeq] using h
    · cases h

/-- **`on_schedule` raises nothing of its own** if its assertions hold of the replica before: an
    exception comes from the hook, after the round has been applied up to some entry. -/
theorem onSchedule_error_at (hout : out.WellFormed) (hbegins : Begins out r.view)
    (h : onSchedule hooks out r = .error err) :
    ∃ done m rest t, out.scheduledSeqMetadataList = done ++ m :: rest ∧
      onSchedule hooks { out with scheduledSeqMetadataList := done } r = .ok t ∧
      hooks.onScheduled m.seqId { t.objs m.seqId with status := .running } t.ext =
        .error err := by
  rcases seq_eq_error.mp h with hfree | ⟨r₁, hfree, h⟩
  · -- a dropped sequence is known
    obtain ⟨_, id, _, t, hsplit, -, hview, hraise⟩ := exists_error_of_foldlM id view
      (fun _ _ _ hs => (freeSeq_view hs).2) (by simpa using hout.ignored_nodup) hfree
    have hid : id ∈ out.ignoredSeqIds := by simp [hsplit]
    have hknown : (id ∈ t.seqMap) = (id ∈ r.seqMap) := congrArg Prod.snd hview
    exact absurd (hknown.mpr (hbegins.ignored id hid)) (freeSeq_error hraise)
  have pfree := freeLoop_pointwise hout.ignored_nodup hfree
  have hfree_frame : ∀ k, k ∉ out.ignoredSeqIds → r₁.view k = r.view k := by
    simpa using pfree.frame
  rcases seq_eq_error.mp h with hpreempt | ⟨r₂, hpreempt, h⟩
  · -- an evicted one is known and executing
    obtain ⟨_, id, _, t, hsplit, -, hview, hraise⟩ := exists_error_of_foldlM id view
      (fun _ _ _ hs => (preemptSeq_view hs).2) (by simpa using hout.preempted_nodup) hpreempt
    have hid : id ∈ out.preemptedSeqIds := by simp [hsplit]
    have hnot : id ∉ out.ignoredSeqIds := fun hign => hout.ignored_preempted id hign hid
    have hview : t.view id = r.view id := hview.trans (hfree_frame id hnot)
    obtain ⟨hknown, hexecuting⟩ := hbegins.preempted id hid
    rw [← hview] at hknown hexecuting
    rcases preemptSeq_error hraise with hunknown | hidle
    · exact absurd hknown hunknown
    · cases hexecuting.symm.trans hidle
  have ppreempt := preemptLoop_pointwise hout.preempted_nodup hpreempt
  have hpreempt_frame : ∀ k, k ∉ out.preemptedSeqIds → r₂.view k = r₁.view k := by
    simpa using ppreempt.frame
  obtain ⟨done, m, rest, t, hsplit, hdone, hview, hraise⟩ :=
    exists_error_of_foldlM SequenceScheduleMetadata.seqId view
      (fun _ _ _ hs => (onSeqScheduled_view hs).2) hout.batch_nodup h
  have hm : m ∈ out.scheduledSeqMetadataList := by simp [hsplit]
  -- a scheduled one is known, and waits or pauses once the evicted ones are reset
  have hbatch : m.seqId ∈ out.batchIds := List.mem_map_of_mem hm
  have hnot : m.seqId ∉ out.ignoredSeqIds := fun hign => hout.ignored_batch _ hign hbatch
  obtain ⟨hknown, hstatus⟩ := hbegins.batch m.seqId hbatch
  have hready : (t.view m.seqId).2 ∧
      ((t.view m.seqId).1.status = .waiting ∨ (t.view m.seqId).1.status = .paused) := by
    rw [hview]
    by_cases hpre : m.seqId ∈ out.preemptedSeqIds
    · have hreset : r₂.view m.seqId = (recomputed (r₁.view m.seqId).1, True) :=
        (ppreempt.mem m.seqId hpre).2
      rw [hreset]
      exact ⟨trivial, .inl rfl⟩
    · rw [hpreempt_frame _ hpre, hfree_frame _ hnot]
      exact ⟨hknown, hstatus.resolve_left hpre⟩
  refine ⟨done, m, rest, t, hsplit, ?_, onSeqScheduled_error hready.1 hready.2 hraise⟩
  exact seq_eq_ok.mpr ⟨r₁, hfree, seq_eq_ok.mpr ⟨r₂, hpreempt, hdone⟩⟩

theorem onSchedule_error (hout : out.WellFormed) (hbegins : Begins out r.view)
    (h : onSchedule hooks out r = .error err) :
    ∃ id s ext, hooks.onScheduled id s ext = .error err := by
  obtain ⟨-, m, -, t, -, -, hhook⟩ := onSchedule_error_at hout hbegins h
  exact ⟨m.seqId, _, t.ext, hhook⟩

/-! ## Completing a batch -/

theorem completeSeq_error {sampled : SeqId → TokenId} {m : SequenceScheduleMetadata}
    (hknown : m.seqId ∈ r.seqMap)
    (hstatus : (r.objs m.seqId).status = .waiting ∨ (r.objs m.seqId).status = .running)
    (h : completeSeq hooks sampled r m = .error err) :
    advance hooks (sampled m.seqId) m.promptChunkLen (r.objs m.seqId) = .error err := by
  unfold completeSeq at h
  rw [if_neg (not_not_intro hknown)] at h
  rcases hstatus with hstatus | hstatus
  · rw [if_pos (by simp [Sequence.isWaiting, hstatus])] at h
    cases h
  rw [if_neg (by simp [Sequence.isWaiting, hstatus])] at h
  rcases seq_eq_error.mp h with h | ⟨r₁, hpause, h⟩
  · exfalso
    rcases seq_eq_error.mp h with h | ⟨⟨⟩, -, h⟩
    · exact assertKnown_error h hknown
    rcases seq_eq_error.mp h with h | ⟨⟨⟩, -, h⟩
    · simp [assertThat, Sequence.isRunning, hstatus] at h
    rcases seq_eq_error.mp h with h | ⟨_, -, h⟩
    · simp [Sequence.setStatus, hstatus, SequenceStatus.canBecome] at h
    · cases h
  obtain ⟨-, rfl⟩ := pauseSeq_eq_ok hpause
  unfold advance
  -- what is left are the calls on the object
  rcases seq_eq_error.mp h with h | ⟨⟨⟩, -, h⟩
  · exact absurd hknown (assertKnown_error h)
  rcases seq_eq_error.mp h with h | ⟨⟨⟩, -, h⟩
  · simp [assertThat, setSeq, Sequence.isFinished, SequenceStatus.isFinished] at h
  have hself : (r.setSeq m.seqId { r.objs m.seqId with status := .paused }).objs m.seqId =
      { r.objs m.seqId with status := .paused } := by simp [setSeq]
  rw [hself] at h
  dsimp only at h ⊢
  split_ifs at h ⊢ with hprompt
  · rcases seq_eq_error.mp h with h | ⟨_, -, h⟩
    · exact h
    · cases h
  · rcases seq_eq_error.mp h with h | ⟨s₁, happend, h⟩
    · exact seq_eq_error.mpr (.inl h)
    refine seq_eq_error.mpr (.inr ⟨s₁, happend, ?_⟩)
    rcases seq_eq_error.mp h with h | ⟨s₂, -, h⟩
    · exact h
    split_ifs at h
    · exact absurd (by exact hknown) (freeSeq_error h)
    · cases h

/-- **`on_step_completed` raises nothing of its own** if every entry of the batch is known and
    waits or runs: an exception comes from the object of a running entry. -/
theorem onStepCompleted_error {sampled : SeqId → TokenId} (hnodup : out.batchIds.Nodup)
    (hready : ∀ id ∈ out.batchIds, (r.view id).2 ∧
      ((r.view id).1.status = .waiting ∨ (r.view id).1.status = .running))
    (h : onStepCompleted hooks out sampled r = .error err) :
    ∃ m ∈ out.scheduledSeqMetadataList,
      advance hooks (sampled m.seqId) m.promptChunkLen (r.objs m.seqId) = .error err := by
  obtain ⟨_, m, _, t, hsplit, -, hview, hraise⟩ :=
    exists_error_of_foldlM SequenceScheduleMetadata.seqId view
      (fun _ _ _ hs => (completeSeq_view hs).2) hnodup h
  have hm : m ∈ out.scheduledSeqMetadataList := by simp [hsplit]
  obtain ⟨hknown, hstatus⟩ := hready m.seqId (List.mem_map_of_mem hm)
  rw [← hview] at hknown hstatus
  have hobjs : t.objs m.seqId = r.objs m.seqId := congrArg Prod.fst hview
  refine ⟨m, hm, ?_⟩
  rw [← hobjs]
  exact completeSeq_error hknown hstatus hraise

end Replica

end VAttention.Manager
