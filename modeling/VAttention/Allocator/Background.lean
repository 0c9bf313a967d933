import VAttention.Allocator.Exactness

/-!
# The background manager is harmless

`do_kvcache_memory_management` maps blocks ahead of time and unmaps blocks of inactive slots.
Whatever it does, no slot loses a block that it needs, and the number of free blocks that the
allocator reports stays the same.
-/

namespace VAttention.Allocator

open VAttention.Lib

variable {cfg : Config} {reserved : List Page} {s : State}

/-- `s'` comes from `s` by mapping blocks only. -/
structure Extends (cfg : Config) (reserved : List Page) (s s' : State) : Prop where
  inv : PageInv cfg reserved s'
  lengths : s'.currSeqLengths = s.currSeqLengths
  mapped : ∀ q, s.mappedPages q ≤ s'.mappedPages q

theorem Extends.refl (hinv : PageInv cfg reserved s) : Extends cfg reserved s s :=
  ⟨hinv, rfl, fun _ => le_rfl⟩

theorem Extends.trans {s₁ s₂ : State} (h₁ : Extends cfg reserved s s₁)
    (h₂ : Extends cfg reserved s₁ s₂) : Extends cfg reserved s s₂ :=
  ⟨h₂.inv, h₂.lengths.trans h₁.lengths, fun q => (h₁.mapped q).trans (h₂.mapped q)⟩

theorem Extends.keepsNeeded {s' : State} (h : Extends cfg reserved s s') :
    KeepsNeeded cfg reserved s s' :=
  ⟨h.inv, h.lengths, fun q => (Nat.min_le_left ..).trans (h.mapped q)⟩

/-- Growth in the background returns in every case. -/
theorem growKvcachePhys_async {r : Nat} (n : Nat) (hinv : PageInv cfg reserved s)
    (hr : r < cfg.maxBatchSize) :
    (growKvcachePhys cfg r n false s).Ensures (Extends cfg reserved s) (fun _ _ => False) := by
  have hspec := growKvcachePhys_spec hr n false hinv
  cases hrun : growKvcachePhys cfg r n false s with
  | done s' =>
    rw [hrun] at hspec
    obtain ⟨m, hre, hlo, -⟩ := hspec
    refine ⟨hre.inv, hre.lengths, fun q => ?_⟩
    rw [hre.mapped]
    by_cases hq : q = r
    · rw [hq, Function.update_self]
      exact hlo
    · rw [Function.update_of_ne hq]
  | throw err s' =>
    -- an exception needs a pool that is too small, and then the call is a no-op
    rw [hrun] at hspec
    obtain ⟨-, rfl, hfull⟩ := hspec
    simp [growKvcachePhys, hfull] at hrun

/-- Unmapping a block of an inactive slot takes nothing that is needed. -/
theorem doReclaimPages_keepsNeeded (hinv : PageInv cfg reserved s) :
    KeepsNeeded cfg reserved s (doReclaimPages cfg s) := by
  obtain ⟨f, hre, hactive⟩ := doReclaimPages_spec hinv
  refine ⟨hre.inv, hre.lengths, fun q => ?_⟩
  rw [hre.mapped]
  cases hq : s.isActiveReq q with
  | true =>
    rw [hactive q hq]
    exact Nat.min_le_left ..
  | false =>
    -- an inactive slot has length 0
    have hzero : s.currSeqLengths q = 0 := by simpa [State.isActiveReq] using hq
    rw [hzero, cfg.tokensToPages_zero, Nat.min_zero]
    exact Nat.zero_le _

/-! ## A complete run -/

theorem doKvcacheMemoryManagement_keepsNeeded (hinv : PageInv cfg reserved s) :
    (doKvcacheMemoryManagement cfg s).Ensures (KeepsNeeded cfg reserved s) (fun _ _ => False) := by
  apply doKvcacheMemoryManagement_ensures
  · intro r hr n s' hs'
    exact (growKvcachePhys_async n hs'.inv hr).mono fun _ h => hs'.trans h.keepsNeeded
  · exact fun n => reclaimIfNeeded_keepsNeeded n hinv
  · exact fun s' hs' => hs'.trans (doReclaimPages_keepsNeeded hs'.inv)

/-- **The background manager is harmless**: from every reachable state a complete run returns
    normally, keeps every recorded length, leaves every active slot that had the blocks it needs
    with those, respects the page limit of every slot, and does not change the reported number of
    free blocks. -/
theorem background_manager_harmless (cfg : Config) (newPage : Nat → Page) (freeMemory : Nat)
    (calls : List Call) :
    let s := runCalls cfg calls (reservePhysicalPages cfg newPage freeMemory State.init)
    ∃ s', doKvcacheMemoryManagement cfg s = .done s' ∧
      s'.currSeqLengths = s.currSeqLengths ∧
      (∀ r, r < cfg.maxBatchSize → s.isActiveReq r = true →
        cfg.tokensToPages (s.currSeqLengths r) ≤ s.mappedPages r →
        cfg.tokensToPages (s.currSeqLengths r) ≤ s'.mappedPages r) ∧
      (∀ r, r < cfg.maxBatchSize → s'.mappedPages r ≤ cfg.maxPagesPerReq) ∧
      numFreeKvblocks cfg s' = numFreeKvblocks cfg s := by
  intro s
  have hinv := runCalls_inv calls (@reservePhysicalPages_inv cfg newPage freeMemory)
  have hkeeps := doKvcacheMemoryManagement_keepsNeeded hinv
  cases hrun : doKvcacheMemoryManagement cfg s with
  | throw err s' =>
    rw [hrun] at hkeeps
    exact hkeeps.elim
  | done s' =>
    rw [hrun] at hkeeps
    refine ⟨s', rfl, hkeeps.lengths, fun r _ _ hcovered => ?_, fun r hr => ?_, ?_⟩
    · have hneed := hkeeps.needed r
      rw [min_eq_right hcovered] at hneed
      exact hneed
    · exact (hkeeps.inv.room r hr).le_maxPagesPerReq
    -- the number depends on the recorded lengths only
    · exact hinv.numFreeKvblocks_congr hkeeps.inv hkeeps.lengths

end VAttention.Allocator
