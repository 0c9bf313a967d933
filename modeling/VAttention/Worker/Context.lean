import VAttention.Manager.Agreement
import VAttention.Worker.Model

/-!
# Context lengths recorded by the vAttention cache engine

The cache engine records one context length for each entry of the batch and keeps those of
the other slots.  A bound on the lengths of the batch is therefore a bound on everything
that is passed to the allocator, step after step.
-/

namespace VAttention.Worker

open VAttention.Core VAttention.Lib VAttention.Manager VAttention.Executor
open VAttention.Allocator hiding State

namespace VAttnCacheEngine

variable {c c' : VAttnCacheEngine} {n : Nat}

/-- A cache engine as its constructor leaves it. -/
def IsNew (c : VAttnCacheEngine) : Prop :=
  ∃ config vattnAsync newPage cacheMemSize, c = .new config vattnAsync newPage cacheMemSize

/-- Every slot has a recorded length of at most `n`. -/
def LensBounded (n : Nat) (c : VAttnCacheEngine) : Prop := ∀ r, c.currSeqLens r ≤ n

theorem LensBounded.update {lens : Nat → Nat} {r len : Nat} (h : ∀ q, lens q ≤ n)
    (hlen : len ≤ n) (q : Nat) : Function.update lens r len q ≤ n := by
  by_cases hq : q = r
  · rw [hq, Function.update_self]
    exact hlen
  · rw [Function.update_of_ne hq]
    exact h q

theorem getReqBatchIdx_currSeqLens {id : SeqId} {seqLen idx : Nat}
    (h : c.getReqBatchIdx id seqLen = .ok (idx, c')) : c'.currSeqLens = c.currSeqLens := by
  unfold getReqBatchIdx at h
  split at h
  · cases h
    rfl
  · split at h
    · cases h
    · cases h
      rfl

theorem recordBatch_bounded {metas : List SequenceMetadata} (h : c.LensBounded n)
    (hmetas : ∀ m ∈ metas, contextLen m ≤ n) (hrun : c.recordBatch metas = .ok c') :
    c'.LensBounded n := by
  -- the invariant speaks about the entries still to be recorded
  have hboth := foldlM_ok_induction
    (I := fun rest c => LensBounded n c ∧ ∀ m ∈ rest, contextLen m ≤ n)
    (fun m rest c c' hstep ⟨hc, hrest⟩ => ?_) metas c c' hrun ⟨h, hmetas⟩
  · exact hboth.1
  · obtain ⟨⟨idx, c₁⟩, hidx, hrec⟩ := seq_eq_ok.mp hstep
    cases hrec
    refine ⟨LensBounded.update ?_ (hrest m List.mem_cons_self),
      fun m' hm' => hrest m' (List.mem_cons_of_mem _ hm')⟩
    rw [getReqBatchIdx_currSeqLens hidx]
    exact hc

/-- A call of the allocator that returns, in each mode. -/
theorem callAllocator_done (h : c.callAllocator = .ok c') :
    ∃ allocator, c' = { c with allocator } ∧
      (c.vattnAsync = false ∧
          stepSync c.config c.currSeqLens true c.allocator = .done allocator ∨
        c.vattnAsync = true ∧
          (stepAsync c.config c.currSeqLens c.allocator).andThen
            (doKvcacheMemoryManagement c.config) = .done allocator) := by
  unfold callAllocator at h
  dsimp only at h
  split at h
  · rename_i allocator hdone
    cases h
    refine ⟨allocator, rfl, ?_⟩
    split_ifs at hdone with hasync
    · exact .inr ⟨hasync, hdone⟩
    · exact .inl ⟨by simpa using hasync, hdone⟩
  · cases h

theorem callAllocator_eq_ok (h : c.callAllocator = .ok c') :
    c' = { c with allocator := c'.allocator } := by
  obtain ⟨allocator, rfl, -⟩ := callAllocator_done h
  rfl

theorem step_bounded {metas : List SequenceMetadata} (h : c.LensBounded n)
    (hmetas : ∀ m ∈ metas, contextLen m ≤ n) (hrun : c.step metas = .ok c') :
    c'.LensBounded n := by
  obtain ⟨c₁, hrecord, hcall⟩ := seq_eq_ok.mp hrun
  have hbound : c₁.LensBounded n := recordBatch_bounded h hmetas hrecord
  rw [callAllocator_eq_ok hcall]
  exact hbound

theorem freeRequest_bounded {id : SeqId} (h : c.LensBounded n)
    (hfree : c.freeRequest id = .ok c') : c'.LensBounded n := by
  unfold freeRequest at hfree
  split at hfree
  · cases hfree
    exact LensBounded.update h (Nat.zero_le n)
  · cases hfree

theorem preemptRequests_bounded {ids : List SeqId} (h : c.LensBounded n)
    (hrun : c.preemptRequests ids = .ok c') : c'.LensBounded n :=
  foldlM_ok_induction (I := fun _ c => LensBounded n c)
    (fun _ _ _ _ hstep hc => freeRequest_bounded hc hstep) ids c c' hrun h

theorem onStepCompletion_bounded {metas : List SequenceMetadata} (h : c.LensBounded n)
    (hrun : c.onStepCompletion metas = .ok c') : c'.LensBounded n := by
  refine foldlM_ok_induction (I := fun _ c => LensBounded n c) (fun m _ c c' hstep hc => ?_)
    metas c c' hrun h
  split_ifs at hstep
  · exact freeRequest_bounded hc hstep
  · cases hstep
    exact hc

/-! ## Contexts of one entry -/

/-- The recorded context and the positions of the input rows stay within the length of a
    well-formed sequence. -/
theorem contextLen_le_getLen {s : Sequence} (h : Regular s) (chunkLen : Int) :
    contextLen ⟨s, chunkLen⟩ ≤ s.getLen := by
  unfold contextLen
  split_ifs with hprompt
  · have hle := h.processed_le
    simp only [Sequence.getNextPromptChunkLen, Sequence.getLen]
    omega
  · exact le_rfl

/-- A sequence with a last token is not empty. -/
theorem getLen_pos_of_lastToken {s : Sequence} {token : TokenId}
    (h : s.getLastTokenId = .ok token) : 0 < s.getLen := by
  by_contra hzero
  have hnil : s.outputTokenIds = [] ∧ s.promptTokenIds = [] := by
    simpa [Sequence.getLen, List.length_eq_zero_iff] using hzero
  simp [Sequence.getLastTokenId, hnil.1, hnil.2] at h

theorem position_lt_getLen {s : Sequence} {chunkLen : Int} {rows : List InputRow}
    (h : inputRows ⟨s, chunkLen⟩ = .ok rows) : ∀ row ∈ rows, row.2 < s.getLen := by
  unfold inputRows at h
  split_ifs at h with hprompt
  · obtain ⟨tokens, htokens, hrows⟩ := seq_eq_ok.mp h
    cases hrows
    obtain ⟨⟨⟩, hend, hchunk⟩ := seq_eq_ok.mp htokens
    cases hchunk
    intro row hrow
    have hpos := (List.of_mem_zip hrow).2
    simp only [assertThat_eq_ok, decide_eq_true_eq] at hend
    simp only [List.mem_range'_1, List.length_take, List.length_drop] at hpos
    simp only [Sequence.getLen]
    omega
  · obtain ⟨token, htoken, hrows⟩ := seq_eq_ok.mp h
    cases hrows
    have hlen : 0 < s.getLen := getLen_pos_of_lastToken htoken
    intro row hrow
    rw [List.mem_singleton.mp hrow]
    dsimp only
    omega

end VAttnCacheEngine

end VAttention.Worker
