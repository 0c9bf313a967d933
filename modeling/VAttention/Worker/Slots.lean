import VAttention.Worker.Context

/-!
# Request slots of the vAttention cache engine

The table `seq_to_batch_idx` gains a key when a sequence is first recorded and loses it when
the sequence finishes or is preempted.
-/

namespace VAttention.Worker.VAttnCacheEngine

open VAttention.Core VAttention.Lib VAttention.Manager VAttention.Executor
open VAttention.Allocator hiding State

variable {c c' : VAttnCacheEngine} {id : SeqId}

/-- The sequence has a request slot. -/
def HasSlot (c : VAttnCacheEngine) (id : SeqId) : Prop := c.seqToBatchIdx id ≠ none

/-! ## The table -/

theorem freeRequest_eq_ok (h : c.freeRequest id = .ok c') :
    ∃ r, c.seqToBatchIdx id = some r ∧ c' = { c with
      allocator := freeBatchIdx r c.allocator
      seqToBatchIdx := Function.update c.seqToBatchIdx id none
      currSeqLens := Function.update c.currSeqLens r 0 } := by
  unfold freeRequest at h
  split at h
  · rename_i r hslot
    cases h
    exact ⟨r, hslot, rfl⟩
  · cases h

theorem freeRequest_hasSlot (h : c.freeRequest id = .ok c') {k : SeqId} :
    c'.HasSlot k ↔ c.HasSlot k ∧ k ≠ id := by
  obtain ⟨r, -, rfl⟩ := freeRequest_eq_ok h
  by_cases hk : k = id
  · simp [HasSlot, hk]
  · simp [HasSlot, hk]

/-- Preempted sequences lose their slots. -/
theorem preemptRequests_hasSlot {ids : List SeqId} (h : c.preemptRequests ids = .ok c')
    {k : SeqId} : c'.HasSlot k ↔ c.HasSlot k ∧ k ∉ ids := by
  induction ids generalizing c with
  | nil =>
    cases h
    simp
  | cons id ids ih =>
    obtain ⟨c₁, hfree, hrest⟩ := seq_eq_ok.mp h
    rw [ih hrest, freeRequest_hasSlot hfree, List.mem_cons, not_or, and_assoc]

/-- Only sequences with a slot can be preempted. -/
theorem preemptRequests_mem_hasSlot {ids : List SeqId} (h : c.preemptRequests ids = .ok c')
    {k : SeqId} (hk : k ∈ ids) : c.HasSlot k := by
  induction ids generalizing c with
  | nil => cases hk
  | cons id ids ih =>
    obtain ⟨c₁, hfree, hrest⟩ := seq_eq_ok.mp h
    rcases List.mem_cons.mp hk with rfl | hk
    · obtain ⟨r, hslot, -⟩ := freeRequest_eq_ok hfree
      simp [HasSlot, hslot]
    · exact ((freeRequest_hasSlot hfree).mp (ih hrest hk)).1

/-- The two ways to find a slot: the sequence has one, or gets one that is not in use. -/
theorem getReqBatchIdx_eq_ok {seqLen idx : Nat} (h : c.getReqBatchIdx id seqLen = .ok (idx, c')) :
    c.seqToBatchIdx id = some idx ∧ c' = c ∨
      c.seqToBatchIdx id = none ∧ findBatchIdx c.config seqLen c.allocator = some idx ∧
        c' = { c with
          allocator := c.allocator.setReqSeqLength idx seqLen
          seqToBatchIdx := Function.update c.seqToBatchIdx id (some idx) } := by
  unfold getReqBatchIdx allocNewBatchIdx at h
  split at h
  · rename_i r hslot
    cases h
    exact .inl ⟨hslot, rfl⟩
  · rename_i hnone
    cases hfind : findBatchIdx c.config seqLen c.allocator with
    | none => simp [hfind] at h
    | some r =>
      simp only [hfind] at h
      cases h
      exact .inr ⟨hnone, rfl, rfl⟩

/-- Recording an entry gives its sequence a slot. -/
theorem recordContext_hasSlot {m : SequenceMetadata} (h : c.recordContext m = .ok c') {k : SeqId} :
    c'.HasSlot k ↔ c.HasSlot k ∨ k = m.seq.seqId := by
  obtain ⟨⟨idx, c₁⟩, hidx, hrec⟩ := seq_eq_ok.mp h
  cases hrec
  rcases getReqBatchIdx_eq_ok hidx with ⟨hslot, rfl⟩ | ⟨-, -, rfl⟩
  · refine ⟨.inl, fun hk => hk.elim id ?_⟩
    rintro rfl
    simp [HasSlot, hslot]
  · by_cases hself : k = m.seq.seqId
    · simp [HasSlot, hself]
    · simp [HasSlot, hself]

/-- Recording a batch gives slots to its entries and to nobody else. -/
theorem recordBatch_hasSlot {metas : List SequenceMetadata} (h : c.recordBatch metas = .ok c')
    {k : SeqId} : c'.HasSlot k ↔ c.HasSlot k ∨ ∃ m ∈ metas, m.seq.seqId = k := by
  induction metas generalizing c with
  | nil =>
    cases h
    simp
  | cons m metas ih =>
    obtain ⟨c₁, hfst, hrest⟩ := seq_eq_ok.mp h
    rw [ih hrest, recordContext_hasSlot hfst, List.exists_mem_cons_iff, or_assoc,
      eq_comm (a := k)]

theorem step_hasSlot {metas : List SequenceMetadata} (h : c.step metas = .ok c') {k : SeqId} :
    c'.HasSlot k ↔ c.HasSlot k ∨ ∃ m ∈ metas, m.seq.seqId = k := by
  obtain ⟨c₁, hrecord, hcall⟩ := seq_eq_ok.mp h
  rw [callAllocator_eq_ok hcall]
  exact recordBatch_hasSlot hrecord

/-- Finished sequences lose their slots. -/
theorem onStepCompletion_hasSlot {metas : List SequenceMetadata}
    (h : c.onStepCompletion metas = .ok c') {k : SeqId} :
    c'.HasSlot k ↔ c.HasSlot k ∧ ∀ m ∈ metas, m.seq.seqId = k → m.seq.isFinished = false := by
  induction metas generalizing c with
  | nil =>
    cases h
    simp
  | cons m metas ih =>
    obtain ⟨c₁, hfst, hrest⟩ := seq_eq_ok.mp h
    rw [ih hrest, List.forall_mem_cons, ← and_assoc]
    refine and_congr_left fun _ => ?_
    dsimp only at hfst
    split_ifs at hfst with hfinished
    · rw [freeRequest_hasSlot hfst]
      simp [hfinished, eq_comm]
    · cases hfst
      simp [hfinished]

end VAttention.Worker.VAttnCacheEngine
