import VAttention.Allocator.Background

/-!
# Recorded lengths

A step function that returns has recorded the length it was given for every slot; the background
manager that runs after `step_async` changes none of them.
-/

namespace VAttention.Allocator

open VAttention.Lib

variable {cfg : Config} {reserved : List Page} {s s' : State} {seqLens : Nat → Nat} {r : Nat}

/-- Serving a slot for its recorded length changes no length. -/
theorem mapPagesForCurrStep_lengths (hinv : PageInv cfg reserved s) (hr : r < cfg.maxBatchSize) :
    (mapPagesForCurrStep cfg r (s.currSeqLengths r) s).Ensures
      (fun s' => PageInv cfg reserved s' ∧ s'.currSeqLengths = s.currSeqLengths)
      (fun _ _ => True) := by
  unfold mapPagesForCurrStep
  split
  · exact ⟨hinv, rfl⟩
  dsimp only
  split
  · exact ⟨hinv, rfl⟩
  have hkeep := reclaimIfNeeded_keepsNeeded
    (cfg.tokensToPages (s.currSeqLengths r) - s.mappedPages r) hinv
  have hgrow := growKvcachePhys_spec hr
    (cfg.tokensToPages (s.currSeqLengths r) - s.mappedPages r) true hkeep.inv
  refine (hgrow.mono_throw fun _ _ _ => trivial).andThen ?_
  rintro s' ⟨m, hre, -⟩
  refine ⟨hre.inv.setReqSeqLength r _, ?_⟩
  -- the length that the call records is the one that is recorded already
  simp only [State.setReqSeqLength]
  rw [hre.lengths, hkeep.lengths, Function.update_eq_self]

theorem stepSyncSlot_lengths (seqLens : Nat → Nat) (eagerReclaim : Bool)
    (hinv : PageInv cfg reserved s) (hr : r < cfg.maxBatchSize) :
    (stepSyncSlot cfg seqLens eagerReclaim r s).Ensures
      (fun s' => PageInv cfg reserved s' ∧
        s'.currSeqLengths = Function.update s.currSeqLengths r (seqLens r))
      (fun _ _ => True) := by
  have hset := hinv.setReqSeqLength r (seqLens r)
  have hself : (s.setReqSeqLength r (seqLens r)).currSeqLengths r = seqLens r :=
    Function.update_self ..
  unfold stepSyncSlot
  dsimp only
  split
  · have hre := releaseKvcachePagesAll_spec hr hset
    exact ⟨hre.inv, hre.lengths⟩
  · have hmap := mapPagesForCurrStep_lengths hset hr
    rw [hself] at hmap
    exact hmap

/-- **A synchronous step that returns has recorded all lengths.** -/
theorem stepSync_lengths {eagerReclaim : Bool} (hinv : PageInv cfg reserved s)
    (hrun : stepSync cfg seqLens eagerReclaim s = .done s') :
    ∀ r, r < cfg.maxBatchSize → s'.currSeqLengths r = seqLens r := by
  -- the slots that the loop has passed have their new lengths
  let I (rest : List Nat) (s : State) : Prop :=
    (∀ r ∈ rest, r < cfg.maxBatchSize) ∧ PageInv cfg reserved s ∧
      ∀ q, q < cfg.maxBatchSize → q ∉ rest → s.currSeqLengths q = seqLens q
  have hstep : ∀ r rest s, I (r :: rest) s →
      (stepSyncSlot cfg seqLens eagerReclaim r s).Ensures (I rest) (fun _ _ => True) := by
    intro r rest s ⟨hmem, hs, hdone⟩
    have hslot := stepSyncSlot_lengths seqLens eagerReclaim hs (hmem r List.mem_cons_self)
    refine hslot.mono fun s' ⟨hs', hlens⟩ => ⟨fun q hq => ?_, hs', fun q hq hrest => ?_⟩
    · exact hmem q (List.mem_cons_of_mem _ hq)
    · rw [hlens]
      by_cases hqr : q = r
      · rw [hqr, Function.update_self]
      · rw [Function.update_of_ne hqr]
        exact hdone q hq (by simp [hqr, hrest])
  have hloop := Outcome.Ensures.forEach hstep (List.range cfg.maxBatchSize) s
    ⟨by simp, hinv, fun q hq hrest => absurd (List.mem_range.mpr hq) hrest⟩
  unfold stepSync at hrun
  rw [hrun] at hloop
  exact fun r hr => hloop.2.2 r hr List.not_mem_nil

/-- **So has an asynchronous one**, also after the background manager has run. -/
theorem stepAsync_lengths (hinv : PageInv cfg reserved s)
    (hrun : (stepAsync cfg seqLens s).andThen (doKvcacheMemoryManagement cfg) = .done s') :
    s'.currSeqLengths = seqLens := by
  have hset : PageInv cfg reserved { s with currSeqLengths := seqLens } := hinv.congr rfl rfl rfl
  have hstep : (stepAsync cfg seqLens s).Ensures
      (fun s' => PageInv cfg reserved s' ∧ s'.currSeqLengths = seqLens) (fun _ _ => True) := by
    refine Outcome.Ensures.forEach_mem ?_ ⟨hset, rfl⟩
    intro r hr s₁ ⟨hs₁, hlens⟩
    refine (mapPagesForCurrStep_lengths hs₁ (List.mem_range.mp hr)).mono ?_
    exact fun s₂ ⟨hs₂, hsame⟩ => ⟨hs₂, hsame.trans hlens⟩
  have hboth := hstep.andThen fun s₁ hs₁ =>
    ((doKvcacheMemoryManagement_keepsNeeded hs₁.1).mono fun s₂ hkeep =>
      hkeep.lengths.trans hs₁.2).mono_throw fun _ _ hfalse => hfalse.elim
  rw [hrun] at hboth
  exact hboth

end VAttention.Allocator
