import VAttention.Lib.Pointwise
import VAttention.Manager.Model

/-!
# A scheduling round as seen by one sequence

`on_schedule` and `on_step_completed` run loops over the lists of a `SchedulerOutputs`, and
every turn touches the object and the `seq_map` entry of one sequence.  So a round acts on
each sequence separately, and on any replica in the same way: `StepView` says how.
-/

namespace VAttention.Manager

open VAttention.Core VAttention.Lib

/-! ## What happens to one object -/

/-- The object after `reset_for_recompute`. -/
def recomputed (s : Sequence) : Sequence :=
  { s with
    status := .waiting
    promptTokensProcessed := 0
    promptProcessingFinished := false
    promptTokenIds := s.promptTokenIds ++ s.outputTokenIds
    outputTokenIds := [] }

/-- The object that enters a batch: reset first if the same round evicted it, then resumed. -/
def entering (out : SchedulerOutputs) (id : SeqId) (s : Sequence) : Sequence :=
  { if id ∈ out.preemptedSeqIds then recomputed s else s with status := .running }

/-- What `on_step_completed` does to the running object of a batch entry. -/
def advance {μ : Type} (hooks : ManagerHooks μ) (outputToken : TokenId) (promptChunkLen : Int)
    (s : Sequence) : Except PyError Sequence :=
  let s := { s with status := .paused }
  if !s.promptProcessingFinished then s.updatePromptTokensProcessed promptChunkLen
  else do
    let s ← s.appendTokenId outputToken
    (hooks.onAppendToken s).checkStop

theorem setStatus_eq_ok {s s' : Sequence} {status : SequenceStatus} :
    s.setStatus status = .ok s' ↔ s.status.canBecome status = true ∧ s' = { s with status } := by
  unfold Sequence.setStatus
  split_ifs with h
  · simp [h, eq_comm]
  · simp [h]

theorem resetForRecompute_eq_ok {s s' : Sequence} (h : s.resetForRecompute = .ok s') :
    s' = recomputed s := by
  obtain ⟨s₁, hstatus, h⟩ := seq_eq_ok.mp h
  obtain ⟨-, rfl⟩ := setStatus_eq_ok.mp hstatus
  cases h
  rfl

/-- A chunk moves the number of processed tokens and nothing else. -/
theorem updatePromptTokensProcessed_eq_ok {s s' : Sequence} {n : Int}
    (h : s.updatePromptTokensProcessed n = .ok s') :
    s.promptProcessingFinished = false ∧ 0 < n ∧
      s.promptTokensProcessed + n.toNat ≤ s.promptTokenIds.length ∧
      s' = { s with
        promptTokensProcessed := s.promptTokensProcessed + n.toNat
        promptProcessingFinished :=
          s.promptTokensProcessed + n.toNat == s.promptTokenIds.length } := by
  obtain ⟨⟨⟩, hprompt, h⟩ := seq_eq_ok.mp h
  obtain ⟨⟨⟩, hpos, h⟩ := seq_eq_ok.mp h
  obtain ⟨⟨⟩, hle, h⟩ := seq_eq_ok.mp h
  simp only [assertThat_eq_ok, Bool.not_eq_true', decide_eq_true_eq] at hprompt hpos hle
  cases h
  exact ⟨hprompt, hpos, hle, rfl⟩

theorem appendTokenId_eq_ok {s s' : Sequence} {t : TokenId} (h : s.appendTokenId t = .ok s') :
    s.promptProcessingFinished = true ∧
      s' = { s with
        outputTokenIds := s.outputTokenIds ++ [t]
        logicalTokenBlocks := appendTokensToBlocks s.blockSize s.logicalTokenBlocks [t] } := by
  obtain ⟨⟨⟩, hprompt, h⟩ := seq_eq_ok.mp h
  rw [assertThat_eq_ok] at hprompt
  cases h
  exact ⟨hprompt, rfl⟩

/-! ## The view of a replica -/

namespace Replica

variable {μ : Type} {hooks : ManagerHooks μ} {r r' : Replica μ} {id : SeqId}

/-- A sequence as the replica knows it: its object, and whether `seq_map` has it. -/
def view (r : Replica μ) (id : SeqId) : Sequence × Prop := (r.objs id, id ∈ r.seqMap)

theorem assertKnown_eq_ok {u : Unit} : r.assertKnown id = .ok u ↔ id ∈ r.seqMap := by
  simp [assertKnown]

theorem view_setSeq_self (s : Sequence) : (r.setSeq id s).view id = (s, id ∈ r.seqMap) := by
  simp [view, setSeq]

theorem view_setSeq_of_ne {k : SeqId} (hk : k ≠ id) (s : Sequence) :
    (r.setSeq id s).view k = r.view k := by
  simp [view, setSeq, hk]

theorem freeSeq_eq_ok (h : freeSeq hooks r id = .ok r') :
    id ∈ r.seqMap ∧
      r' = { r with seqMap := r.seqMap.erase id, ext := hooks.onFree id (r.objs id) r.ext } := by
  obtain ⟨⟨⟩, hknown, h⟩ := seq_eq_ok.mp h
  cases h
  exact ⟨assertKnown_eq_ok.mp hknown, rfl⟩

/-- Freeing removes the entry and keeps the object. -/
theorem freeSeq_view (h : freeSeq hooks r id = .ok r') :
    (id ∈ r.seqMap ∧ r'.view id = (r.objs id, False)) ∧
      ∀ k, k ≠ id → r'.view k = r.view k := by
  obtain ⟨hknown, rfl⟩ := freeSeq_eq_ok h
  refine ⟨⟨hknown, by simp [view]⟩, fun k hk => by simp [view, hk]⟩

theorem preemptSeq_view (h : preemptSeq hooks r id = .ok r') :
    (id ∈ r.seqMap ∧ r'.view id = (recomputed (r.objs id), True)) ∧
      ∀ k, k ≠ id → r'.view k = r.view k := by
  obtain ⟨⟨⟩, hknown, h⟩ := seq_eq_ok.mp h
  obtain ⟨⟨⟩, -, h⟩ := seq_eq_ok.mp h
  obtain ⟨s, hreset, h⟩ := seq_eq_ok.mp h
  rw [assertKnown_eq_ok] at hknown
  cases resetForRecompute_eq_ok hreset
  cases h
  refine ⟨⟨hknown, ?_⟩, fun k hk => view_setSeq_of_ne hk _⟩
  simp [view, setSeq, hknown]

theorem resumeSeq_eq_ok (h : r.resumeSeq id = .ok r') :
    id ∈ r.seqMap ∧ ((r.objs id).status = .waiting ∨ (r.objs id).status = .paused) ∧
      r' = r.setSeq id { r.objs id with status := .running } := by
  obtain ⟨⟨⟩, hknown, h⟩ := seq_eq_ok.mp h
  obtain ⟨⟨⟩, hstatus, h⟩ := seq_eq_ok.mp h
  obtain ⟨s, hset, h⟩ := seq_eq_ok.mp h
  rw [assertKnown_eq_ok] at hknown
  obtain ⟨-, rfl⟩ := setStatus_eq_ok.mp hset
  cases h
  refine ⟨hknown, ?_, rfl⟩
  simpa [Sequence.isWaiting, Sequence.isPaused] using hstatus

theorem onSeqScheduled_view {m : SequenceScheduleMetadata}
    (h : onSeqScheduled hooks r m = .ok r') :
    (m.seqId ∈ r.seqMap ∧
        ((r.objs m.seqId).status = .waiting ∨ (r.objs m.seqId).status = .paused) ∧
        r'.view m.seqId = ({ r.objs m.seqId with status := .running }, True)) ∧
      ∀ k, k ≠ m.seqId → r'.view k = r.view k := by
  obtain ⟨⟨⟩, -, h⟩ := seq_eq_ok.mp h
  obtain ⟨r₁, hresume, h⟩ := seq_eq_ok.mp h
  obtain ⟨ext, -, h⟩ := seq_eq_ok.mp h
  obtain ⟨hknown, hstatus, rfl⟩ := resumeSeq_eq_ok hresume
  cases h
  refine ⟨⟨hknown, hstatus, ?_⟩, fun k hk => view_setSeq_of_ne hk _⟩
  simp [view, setSeq, hknown]

theorem pauseSeq_eq_ok (h : r.pauseSeq id = .ok r') :
    (r.objs id).status = .running ∧ r' = r.setSeq id { r.objs id with status := .paused } := by
  obtain ⟨⟨⟩, -, h⟩ := seq_eq_ok.mp h
  obtain ⟨⟨⟩, hrunning, h⟩ := seq_eq_ok.mp h
  obtain ⟨s, hset, h⟩ := seq_eq_ok.mp h
  obtain ⟨-, rfl⟩ := setStatus_eq_ok.mp hset
  cases h
  exact ⟨by simpa [Sequence.isRunning] using hrunning, rfl⟩

/-- `_process_seq_output` frees the sequence if it has finished. -/
theorem processSeqOutput_view {outputToken : TokenId} {promptChunkLen : Int} {s : Sequence}
    (hpaused : r.objs id = { s with status := .paused })
    (h : processSeqOutput hooks r id outputToken promptChunkLen = .ok r') :
    (∃ s', advance hooks outputToken promptChunkLen s = .ok s' ∧
        r'.view id = (s', s'.isFinished = false)) ∧
      ∀ k, k ≠ id → r'.view k = r.view k := by
  obtain ⟨⟨⟩, hknown, h⟩ := seq_eq_ok.mp h
  obtain ⟨⟨⟩, -, h⟩ := seq_eq_ok.mp h
  rw [assertKnown_eq_ok] at hknown
  unfold advance
  rw [hpaused] at h
  dsimp only at h ⊢
  split_ifs at h ⊢ with hprompt
  -- a chunk of the prompt never finishes the sequence
  · obtain ⟨s', hupdate, h⟩ := seq_eq_ok.mp h
    cases h
    refine ⟨⟨s', hupdate, ?_⟩, fun k hk => view_setSeq_of_ne hk _⟩
    obtain ⟨-, -, -, rfl⟩ := updatePromptTokensProcessed_eq_ok hupdate
    rw [view_setSeq_self]
    simp [hknown, Sequence.isFinished, SequenceStatus.isFinished]
  · obtain ⟨s₁, happend, h⟩ := seq_eq_ok.mp h
    obtain ⟨s', hstop, h⟩ := seq_eq_ok.mp h
    -- the entry stays exactly if the sequence goes on
    split_ifs at h with hfinished
    · obtain ⟨⟨-, hview⟩, hframe⟩ := freeSeq_view h
      refine ⟨⟨s', seq_eq_ok.mpr ⟨s₁, happend, hstop⟩, ?_⟩,
        fun k hk => (hframe k hk).trans (view_setSeq_of_ne hk _)⟩
      rw [hview]
      simp [setSeq, hfinished]
    · cases h
      refine ⟨⟨s', seq_eq_ok.mpr ⟨s₁, happend, hstop⟩, ?_⟩, fun k hk => view_setSeq_of_ne hk _⟩
      rw [view_setSeq_self]
      simp [hknown, hfinished]

theorem completeSeq_view {sampled : SeqId → TokenId} {m : SequenceScheduleMetadata}
    (h : completeSeq hooks sampled r m = .ok r') :
    ((r.objs m.seqId).status = .waiting ∧ r'.view m.seqId = r.view m.seqId ∨
        (r.objs m.seqId).status ≠ .waiting ∧
        ∃ s', advance hooks (sampled m.seqId) m.promptChunkLen (r.objs m.seqId) = .ok s' ∧
          r'.view m.seqId = (s', s'.isFinished = false)) ∧
      ∀ k, k ≠ m.seqId → r'.view k = r.view k := by
  unfold completeSeq at h
  split_ifs at h with hknown hwaiting
  · cases h
    exact ⟨.inl ⟨by simpa [Sequence.isWaiting] using hwaiting, rfl⟩, fun _ _ => rfl⟩
  · obtain ⟨r₁, hpause, h⟩ := seq_eq_ok.mp h
    obtain ⟨-, rfl⟩ := pauseSeq_eq_ok hpause
    obtain ⟨hself, hframe⟩ := processSeqOutput_view (s := r.objs m.seqId) (by simp [setSeq]) h
    have hnot : (r.objs m.seqId).status ≠ .waiting := by
      simpa [Sequence.isWaiting] using hwaiting
    exact ⟨.inr ⟨hnot, hself⟩, fun k hk => (hframe k hk).trans (view_setSeq_of_ne hk _)⟩

end Replica

/-! ## A whole round -/

/-- The effect of `on_schedule` followed by `on_step_completed` on each sequence. -/
structure StepView {μ : Type} (hooks : ManagerHooks μ) (out : SchedulerOutputs)
    (sampled : SeqId → TokenId) (v v' : SeqId → Sequence × Prop) : Prop where
  ignored : ∀ id ∈ out.ignoredSeqIds, (v id).2 ∧ v' id = ((v id).1, False)
  batch : ∀ m ∈ out.scheduledSeqMetadataList, (v m.seqId).2 ∧
    ∃ s', advance hooks (sampled m.seqId) m.promptChunkLen
        (entering out m.seqId (v m.seqId).1) = .ok s' ∧
      v' m.seqId = (s', s'.isFinished = false)
  preempted : ∀ id ∈ out.preemptedSeqIds, id ∉ out.batchIds →
    (v id).2 ∧ v' id = (recomputed (v id).1, True)
  frame : ∀ id, id ∉ out.ignoredSeqIds → id ∉ out.preemptedSeqIds → id ∉ out.batchIds →
    v' id = v id

namespace Replica

variable {μ : Type} {hooks : ManagerHooks μ} {out : SchedulerOutputs}

/-- The loop over the dropped sequences changes each of them once. -/
theorem freeLoop_pointwise {r r' : Replica μ} {ids : List SeqId} (hnodup : ids.Nodup)
    (h : ids.foldlM (freeSeq hooks) r = .ok r') :
    Pointwise id ids (fun _ x y => x.2 ∧ y = (x.1, False)) r.view r'.view :=
  .of_foldlM view (fun _ _ _ hs => freeSeq_view hs) (by simpa using hnodup) h

/-- The loop over the evicted sequences resets each of them once. -/
theorem preemptLoop_pointwise {r r' : Replica μ} {ids : List SeqId} (hnodup : ids.Nodup)
    (h : ids.foldlM (preemptSeq hooks) r = .ok r') :
    Pointwise id ids (fun _ x y => x.2 ∧ y = (recomputed x.1, True)) r.view r'.view :=
  .of_foldlM view (fun _ _ _ hs => preemptSeq_view hs) (by simpa using hnodup) h

/-- `on_schedule` by sequence. -/
theorem onSchedule_view {r r' : Replica μ} (hout : out.WellFormed)
    (h : onSchedule hooks out r = .ok r') :
    (∀ id ∈ out.ignoredSeqIds, id ∈ r.seqMap ∧ r'.view id = (r.objs id, False)) ∧
      (∀ id ∈ out.batchIds, id ∈ r.seqMap ∧ r'.view id = (entering out id (r.objs id), True)) ∧
      (∀ id ∈ out.preemptedSeqIds, id ∉ out.batchIds →
        id ∈ r.seqMap ∧ r'.view id = (recomputed (r.objs id), True)) ∧
      ∀ id, id ∉ out.ignoredSeqIds → id ∉ out.preemptedSeqIds → id ∉ out.batchIds →
        r'.view id = r.view id := by
  obtain ⟨r₁, hfree, h⟩ := seq_eq_ok.mp h
  obtain ⟨r₂, hpreempt, hresume⟩ := seq_eq_ok.mp h
  -- each of the three loops changes each of its sequences once
  have pfree := freeLoop_pointwise hout.ignored_nodup hfree
  have ppreempt := preemptLoop_pointwise hout.preempted_nodup hpreempt
  have presume : Pointwise SequenceScheduleMetadata.seqId out.scheduledSeqMetadataList
      (fun _ x y => x.2 ∧ y = ({ x.1 with status := .running }, True)) r₂.view r'.view := by
    refine .of_foldlM view (fun m s s' hs => ?_) hout.batch_nodup hresume
    obtain ⟨⟨hknown, -, hview⟩, hframe⟩ := onSeqScheduled_view hs
    exact ⟨⟨hknown, hview⟩, hframe⟩
  have hfree_frame : ∀ k, k ∉ out.ignoredSeqIds → r₁.view k = r.view k := by
    simpa using pfree.frame
  have hpreempt_frame : ∀ k, k ∉ out.preemptedSeqIds → r₂.view k = r₁.view k := by
    simpa using ppreempt.frame
  have hpreempt_mem : ∀ k ∈ out.preemptedSeqIds,
      (r₁.view k).2 ∧ r₂.view k = (recomputed (r₁.view k).1, True) := ppreempt.mem
  -- the view of a sequence before the last loop
  have hmid : ∀ k, k ∉ out.ignoredSeqIds → r₂.view k =
      if k ∈ out.preemptedSeqIds then (recomputed (r.objs k), True) else r.view k := by
    intro k hk
    split_ifs with hpre
    · rw [(hpreempt_mem k hpre).2, hfree_frame k hk]
      rfl
    · rw [hpreempt_frame k hpre, hfree_frame k hk]
  have hknown : ∀ k, k ∉ out.ignoredSeqIds → k ∈ out.preemptedSeqIds → k ∈ r.seqMap := by
    intro k hk hpre
    have hlive := (hpreempt_mem k hpre).1
    rwa [hfree_frame k hk] at hlive
  refine ⟨fun k hk => ?_, fun k hk => ?_, fun k hk hbatch => ?_, fun k hign hpre hbatch => ?_⟩
  · have hpre := hout.ignored_preempted k hk
    rw [presume.frame k (hout.ignored_batch k hk), hpreempt_frame k hpre]
    exact pfree.mem k hk
  · have hign : k ∉ out.ignoredSeqIds := fun h => hout.ignored_batch k h hk
    obtain ⟨m, hm, rfl⟩ := List.mem_map.mp hk
    obtain ⟨hlive, hview⟩ := presume.mem m hm
    rw [hmid _ hign] at hlive hview
    rw [hview, entering]
    split_ifs at hlive ⊢ with hpre
    · exact ⟨hknown _ hign hpre, rfl⟩
    · exact ⟨hlive, rfl⟩
  · have hign : k ∉ out.ignoredSeqIds := fun h => hout.ignored_preempted k h hk
    rw [presume.frame k hbatch, hmid k hign, if_pos hk]
    exact ⟨hknown k hign hk, rfl⟩
  · rw [presume.frame k hbatch, hmid k hign, if_neg hpre]

/-- `on_step_completed` by sequence: a waiting one is passed over, the others advance. -/
theorem onStepCompleted_view {r r' : Replica μ} {sampled : SeqId → TokenId}
    (hnodup : out.batchIds.Nodup) (h : onStepCompleted hooks out sampled r = .ok r') :
    Pointwise SequenceScheduleMetadata.seqId out.scheduledSeqMetadataList
      (fun m x y => x.1.status = .waiting ∧ y = x ∨ x.1.status ≠ .waiting ∧
        ∃ s', advance hooks (sampled m.seqId) m.promptChunkLen x.1 = .ok s' ∧
          y = (s', s'.isFinished = false)) r.view r'.view :=
  .of_foldlM view (fun _ _ _ hs => completeSeq_view hs) hnodup h

/-- **A round acts on each sequence separately**: on every replica, an ignored sequence is
    forgotten, a batch entry advances, an evicted one is reset, and the rest is untouched. -/
theorem stepView {r r₁ r' : Replica μ} {sampled : SeqId → TokenId}
    (hout : out.WellFormed) (hschedule : onSchedule hooks out r = .ok r₁)
    (hcompleted : onStepCompleted hooks out sampled r₁ = .ok r') :
    StepView hooks out sampled r.view r'.view := by
  obtain ⟨hignored, hbatch, hpreempted, hframe⟩ := onSchedule_view hout hschedule
  have pcomplete := onStepCompleted_view hout.batch_nodup hcompleted
  constructor
  case ignored =>
    intro id hid
    rw [pcomplete.frame id (hout.ignored_batch id hid)]
    exact hignored id hid
  case batch =>
    intro m hm
    obtain ⟨hknown, hentering⟩ := hbatch m.seqId (List.mem_map_of_mem hm)
    have hadvance := pcomplete.mem m hm
    rw [hentering] at hadvance
    -- a batch entry runs, so `on_step_completed` does not pass over it
    exact ⟨hknown, (hadvance.resolve_left (by simp [entering])).2⟩
  case preempted =>
    intro id hid hnot
    rw [pcomplete.frame id hnot]
    exact hpreempted id hid hnot
  case frame =>
    intro id hign hpre hnot
    rw [pcomplete.frame id hnot]
    exact hframe id hign hpre hnot

/-! ## Properties of all objects -/

/-- An object of the replica after an operation on one sequence, which `P` survives. -/
theorem forall_objs_of_view {r r' : Replica μ} (P : Sequence → Prop) {id : SeqId}
    (hself : P (r'.view id).1) (hframe : ∀ k, k ≠ id → r'.view k = r.view k)
    (hr : ∀ k, P (r.objs k)) : ∀ k, P (r'.objs k) := by
  intro k
  by_cases hk : k = id
  · rw [hk]
    exact hself
  · have hsame : r'.objs k = r.objs k := congrArg Prod.fst (hframe k hk)
    rw [hsame]
    exact hr k

/-- **Rule of invariants** for the objects: `on_schedule` resets and resumes. -/
theorem onSchedule_forall_objs {r r' : Replica μ} (P : Sequence → Prop)
    (hreset : ∀ s, P s → P (recomputed s)) (hresume : ∀ s, P s → P { s with status := .running })
    (h : onSchedule hooks out r = .ok r') (hr : ∀ id, P (r.objs id)) : ∀ id, P (r'.objs id) := by
  obtain ⟨r₁, hfree, h⟩ := seq_eq_ok.mp h
  obtain ⟨r₂, hpreempt, hschedule⟩ := seq_eq_ok.mp h
  have h₁ : ∀ id, P (r₁.objs id) := by
    refine foldlM_ok_induction (I := fun _ (r : Replica μ) => ∀ id, P (r.objs id))
      (fun id _ r r' hone hP => ?_) _ r r₁ hfree hr
    obtain ⟨-, rfl⟩ := freeSeq_eq_ok hone
    exact hP
  have h₂ : ∀ id, P (r₂.objs id) := by
    refine foldlM_ok_induction (I := fun _ (r : Replica μ) => ∀ id, P (r.objs id))
      (fun id _ r r' hone hP => ?_) _ r₁ r₂ hpreempt h₁
    obtain ⟨⟨-, hview⟩, hframe⟩ := preemptSeq_view hone
    refine forall_objs_of_view P ?_ hframe hP
    rw [hview]
    exact hreset _ (hP id)
  refine foldlM_ok_induction (I := fun _ (r : Replica μ) => ∀ id, P (r.objs id))
    (fun m _ r r' hone hP => ?_) _ r₂ r' hschedule h₂
  obtain ⟨⟨-, -, hview⟩, hframe⟩ := onSeqScheduled_view hone
  refine forall_objs_of_view P ?_ hframe hP
  rw [hview]
  exact hresume _ (hP m.seqId)

/-- The same for `on_step_completed`, which advances. -/
theorem onStepCompleted_forall_objs {r r' : Replica μ} {sampled : SeqId → TokenId}
    (P : Sequence → Prop)
    (hadvance : ∀ s s' t chunkLen, advance hooks t chunkLen s = .ok s' → P s → P s')
    (h : onStepCompleted hooks out sampled r = .ok r') (hr : ∀ id, P (r.objs id)) :
    ∀ id, P (r'.objs id) := by
  refine foldlM_ok_induction (I := fun _ (r : Replica μ) => ∀ id, P (r.objs id))
    (fun m _ r r' hone hP => ?_) _ r r' h hr
  obtain ⟨hself, hframe⟩ := completeSeq_view hone
  refine forall_objs_of_view P ?_ hframe hP
  rcases hself with ⟨-, hview⟩ | ⟨-, s', hs', hview⟩
  · rw [hview]
    exact hP m.seqId
  · rw [hview]
    exact hadvance _ s' _ _ hs' (hP m.seqId)

end Replica

end VAttention.Manager
