import Mathlib.Data.Int.ModEq
import VAttention.Allocator.Conservation

/-!
# When a synchronous step succeeds

`step_sync` visits the slots in order and takes blocks from other slots when it runs out of
free ones, but never those that a slot needs for its recorded length.  It succeeds if the
blocks that all slots need, each for the larger of its old and its new length, exist.  The
number of free blocks that the allocator reports counts the blocks no slot needs.
-/

namespace VAttention.Allocator

open VAttention.Lib

variable {cfg : Config} {reserved : List Page} {s : State}

/-- Blocks that all slots need for their lengths. -/
def totalPages (cfg : Config) (lens : Nat → Nat) : Nat :=
  totalMapped cfg fun r => cfg.tokensToPages (lens r)

/-- Blocks that all slots need while their lengths change one after another. -/
def peakPages (cfg : Config) (lens lens' : Nat → Nat) : Nat :=
  totalMapped cfg fun r => max (cfg.tokensToPages (lens r)) (cfg.tokensToPages (lens' r))

theorem totalMapped_mono {f g : Nat → Nat} (h : ∀ r, r < cfg.maxBatchSize → f r ≤ g r) :
    totalMapped cfg f ≤ totalMapped cfg g :=
  List.sum_le_sum fun r hr => h r (List.mem_range.mp hr)

theorem totalPages_update (cfg : Config) (lens : Nat → Nat) {r : Nat} (hr : r < cfg.maxBatchSize)
    (len : Nat) :
    totalPages cfg (Function.update lens r len) + cfg.tokensToPages (lens r) =
      totalPages cfg lens + cfg.tokensToPages len := by
  refine sum_map_add_eq_of_eq_of_ne (r := r) List.nodup_range (List.mem_range.mpr hr) ?_ ?_
  · rw [Function.update_self, Nat.add_comm]
  · intro q _ hq
    rw [Function.update_of_ne hq]

/-- Changing the new length of a slot costs at most what exceeds its old length. -/
theorem peakPages_update_le (cfg : Config) (lens lens' : Nat → Nat) {r : Nat}
    (hr : r < cfg.maxBatchSize) (len : Nat) :
    peakPages cfg lens (Function.update lens' r len) ≤
      peakPages cfg lens lens' + (cfg.tokensToPages len - cfg.tokensToPages (lens r)) := by
  have hsum : peakPages cfg lens (Function.update lens' r len) +
      max (cfg.tokensToPages (lens r)) (cfg.tokensToPages (lens' r)) =
        peakPages cfg lens lens' + max (cfg.tokensToPages (lens r)) (cfg.tokensToPages len) := by
    refine sum_map_add_eq_of_eq_of_ne (r := r) List.nodup_range (List.mem_range.mpr hr) ?_ ?_
    · rw [Function.update_self, Nat.add_comm]
    · intro q _ hq
      rw [Function.update_of_ne hq]
  omega

/-- Giving a slot a first length costs at most what that length needs. -/
theorem peakPages_update_both_le (cfg : Config) (lens lens' : Nat → Nat) {r : Nat}
    (hr : r < cfg.maxBatchSize) (len : Nat) :
    peakPages cfg (Function.update lens r len) (Function.update lens' r len) ≤
      peakPages cfg lens lens' + cfg.tokensToPages len := by
  have hsum : peakPages cfg (Function.update lens r len) (Function.update lens' r len) +
      max (cfg.tokensToPages (lens r)) (cfg.tokensToPages (lens' r)) =
        peakPages cfg lens lens' + cfg.tokensToPages len := by
    refine sum_map_add_eq_of_eq_of_ne (r := r) List.nodup_range (List.mem_range.mpr hr) ?_ ?_
    · rw [Function.update_self, Function.update_self, Nat.max_self, Nat.add_comm]
    · intro q _ hq
      rw [Function.update_of_ne hq, Function.update_of_ne hq]
  omega

theorem totalPages_le_peakPages (cfg : Config) (lens lens' : Nat → Nat) :
    totalPages cfg lens' ≤ peakPages cfg lens lens' :=
  totalMapped_mono fun _ _ => Nat.le_max_right ..

/-- When no slot needs fewer blocks than before, the peak is the total. -/
theorem peakPages_eq_totalPages {lens lens' : Nat → Nat}
    (h : ∀ r, r < cfg.maxBatchSize → cfg.tokensToPages (lens r) ≤ cfg.tokensToPages (lens' r)) :
    peakPages cfg lens lens' = totalPages cfg lens' := by
  refine congrArg List.sum (List.map_congr_left fun r hr => ?_)
  rw [max_eq_right (h r (List.mem_range.mp hr))]

theorem Config.tokensToPages_zero (cfg : Config) : cfg.tokensToPages 0 = 0 := by
  have hpos := cfg.tokensPerPage_pos
  have hle : (0 + cfg.tokensPerPage - 1) % u64Size ≤ 0 + cfg.tokensPerPage - 1 := Nat.mod_le _ _
  exact Nat.div_eq_of_lt (by omega)

/-- One more token needs at most one more block, also where the length wraps around. -/
theorem Config.tokensToPages_succ_le (cfg : Config) (n : Nat) :
    cfg.tokensToPages ((n + 1) % u64Size) ≤ cfg.tokensToPages n + 1 := by
  have hpos := cfg.tokensPerPage_pos
  have hround : ((n + 1) % u64Size + cfg.tokensPerPage - 1) % u64Size =
      ((n + cfg.tokensPerPage - 1) % u64Size + 1) % u64Size := by
    rw [Nat.add_sub_assoc hpos, Nat.mod_add_mod, Nat.mod_add_mod]
    congr 1
    omega
  rw [Config.tokensToPages, Config.tokensToPages, hround]
  calc ((n + cfg.tokensPerPage - 1) % u64Size + 1) % u64Size / cfg.tokensPerPage
      ≤ ((n + cfg.tokensPerPage - 1) % u64Size + cfg.tokensPerPage) / cfg.tokensPerPage :=
        Nat.div_le_div_right ((Nat.mod_le _ _).trans (by omega))
    _ = (n + cfg.tokensPerPage - 1) % u64Size / cfg.tokensPerPage + 1 :=
        Nat.add_div_right _ hpos

/-! ## Free slots -/

/-- `alloc_new_batch_idx` picks an inactive slot. -/
theorem findBatchIdx_inactive {seqlen r : Nat} (h : findBatchIdx cfg seqlen s = some r) :
    r < cfg.maxBatchSize ∧ s.currSeqLengths r = 0 := by
  revert r
  -- the candidate is inactive after every turn of the scan
  refine List.foldlRecOn (motive := fun newId =>
    ∀ {r}, newId = some r → r < cfg.maxBatchSize ∧ s.currSeqLengths r = 0) _ _ (by simp) ?_
  intro newId hold r hr q hq
  split_ifs at hq with hactive
  · exact hold hq
  have hfree : r < cfg.maxBatchSize ∧ s.currSeqLengths r = 0 :=
    ⟨List.mem_range.mp hr, by simpa [State.isActiveReq] using hactive⟩
  cases newId with
  | none =>
    cases hq
    exact hfree
  | some best =>
    dsimp only at hq
    split_ifs at hq
    · cases hq
      exact hfree
    · cases hq
      exact hold rfl

/-! ## Growth on demand -/

/-- If all recorded lengths can be served, reclaiming makes room for the growth of a slot up to
    its recorded length. -/
theorem PageInv.reclaim_available (hinv : PageInv cfg reserved s) {r : Nat}
    (hr : r < cfg.maxBatchSize) (hgrow : s.mappedPages r < cfg.tokensToPages (s.currSeqLengths r))
    (hfits : totalPages cfg s.currSeqLengths ≤ totalKvblocks cfg reserved) :
    let n := cfg.tokensToPages (s.currSeqLengths r) - s.mappedPages r
    kvblocksAvailable cfg (reclaimKvblocksOnDemand cfg n s) n = true := by
  intro n
  obtain ⟨f, hre, hmono, hval, hdone⟩ := reclaimKvblocksOnDemand_spec n hinv
  rcases hdone with havail | hall
  · exact havail
  -- the slot itself has nothing to give
  have hself : f r = s.mappedPages r := by
    have hle := hmono r
    rcases hval r with h | h
    · exact h
    · omega
  -- the others hold at most what they need, so the missing blocks are in the pool
  rw [hre.inv.kvblocksAvailable_iff, hre.mapped]
  have hsum := totalMapped_update cfg f hr (cfg.tokensToPages (s.currSeqLengths r))
  have hbound : totalMapped cfg (Function.update f r (cfg.tokensToPages (s.currSeqLengths r))) ≤
      totalPages cfg s.currSeqLengths := by
    refine totalMapped_mono fun q hq => ?_
    by_cases hqr : q = r
    · rw [hqr, Function.update_self]
    · rw [Function.update_of_ne hqr]
      exact hall q hq
  omega

theorem mapPagesForCurrStep_done (hinv : PageInv cfg reserved s) {r : Nat}
    (hr : r < cfg.maxBatchSize)
    (hfits : totalPages cfg s.currSeqLengths ≤ totalKvblocks cfg reserved) :
    ∃ s', mapPagesForCurrStep cfg r (s.currSeqLengths r) s = .done s' ∧
      PageInv cfg reserved s' ∧ s'.currSeqLengths = s.currSeqLengths := by
  unfold mapPagesForCurrStep
  split_ifs with hzero
  · exact ⟨s, rfl, hinv, rfl⟩
  dsimp only
  split
  case isTrue => exact ⟨s, rfl, hinv, rfl⟩
  case isFalse hgrow =>
    have hgrow : s.mappedPages r < cfg.tokensToPages (s.currSeqLengths r) := by omega
    have havail := hinv.reclaim_available hr hgrow hfits
    dsimp only at havail
    generalize cfg.tokensToPages (s.currSeqLengths r) - s.mappedPages r = n at havail ⊢
    -- the state from which the slot grows
    obtain ⟨s₁, hs₁, hinv₁, hlens, havail₁⟩ : ∃ s₁,
        (if kvblocksAvailable cfg s n then s else reclaimKvblocksOnDemand cfg n s) = s₁ ∧
        PageInv cfg reserved s₁ ∧ s₁.currSeqLengths = s.currSeqLengths ∧
        kvblocksAvailable cfg s₁ n = true := by
      split_ifs with hfree
      · exact ⟨s, rfl, hinv, rfl, hfree⟩
      · obtain ⟨f, hre, -⟩ := reclaimKvblocksOnDemand_spec n hinv
        exact ⟨_, rfl, hre.inv, hre.lengths, havail⟩
    rw [hs₁]
    have hspec := growKvcachePhys_spec hr n true hinv₁
    cases hrun : growKvcachePhys cfg r n true s₁ with
    -- the pool has enough, so the exception is not thrown
    | throw err s₂ =>
      rw [hrun] at hspec
      rw [hspec.2.2] at havail₁
      cases havail₁
    | done s₂ =>
      rw [hrun] at hspec
      obtain ⟨m, hre, -⟩ := hspec
      refine ⟨_, rfl, hre.inv.setReqSeqLength r _, ?_⟩
      rw [State.setReqSeqLength]
      dsimp only
      rw [hre.lengths, hlens, Function.update_eq_self]

/-! ## The loop over the slots -/

theorem stepSyncSlot_done (seqLens : Nat → Nat) (eagerReclaim : Bool)
    (hinv : PageInv cfg reserved s) {r : Nat} (hr : r < cfg.maxBatchSize)
    (hfits : totalPages cfg (Function.update s.currSeqLengths r (seqLens r)) ≤
      totalKvblocks cfg reserved) :
    ∃ s', stepSyncSlot cfg seqLens eagerReclaim r s = .done s' ∧ PageInv cfg reserved s' ∧
      s'.currSeqLengths = Function.update s.currSeqLengths r (seqLens r) := by
  have hset := hinv.setReqSeqLength r (seqLens r)
  unfold stepSyncSlot
  dsimp only
  split
  · have hre := releaseKvcachePagesAll_spec hr hset
    exact ⟨_, rfl, hre.inv, hre.lengths⟩
  · have hself : seqLens r = (s.setReqSeqLength r (seqLens r)).currSeqLengths r :=
      (Function.update_self r (seqLens r) s.currSeqLengths).symm
    obtain ⟨s', hrun, hinv', hlens⟩ := mapPagesForCurrStep_done hset hr hfits
    rw [← hself] at hrun
    exact ⟨s', hrun, hinv', hlens⟩

/-- The loop over the slots: each slot has its old or its new length. -/
theorem forEach_stepSyncSlot_done (lens seqLens : Nat → Nat) (eagerReclaim : Bool) (rs : List Nat)
    (hrs : ∀ r ∈ rs, r < cfg.maxBatchSize) (hinv : PageInv cfg reserved s)
    (hlens : ∀ q, s.currSeqLengths q = lens q ∨ s.currSeqLengths q = seqLens q)
    (hfits : peakPages cfg lens seqLens ≤ totalKvblocks cfg reserved) :
    ∃ s', Outcome.forEach (stepSyncSlot cfg seqLens eagerReclaim) rs s = .done s' ∧
      PageInv cfg reserved s' ∧
      ∀ q, s'.currSeqLengths q = if q ∈ rs then seqLens q else s.currSeqLengths q := by
  -- at every turn each slot has its old or its new length, so the peak bounds the demand
  induction rs generalizing s with
  | nil => exact ⟨s, rfl, hinv, fun q => rfl⟩
  | cons r rs ih =>
    have hlens' : ∀ q, Function.update s.currSeqLengths r (seqLens r) q = lens q ∨
        Function.update s.currSeqLengths r (seqLens r) q = seqLens q := by
      intro q
      by_cases hq : q = r
      · rw [hq, Function.update_self]
        exact .inr rfl
      · rw [Function.update_of_ne hq]
        exact hlens q
    have hpages : totalPages cfg (Function.update s.currSeqLengths r (seqLens r)) ≤
        peakPages cfg lens seqLens := by
      refine totalMapped_mono fun q _ => ?_
      rcases hlens' q with h | h <;> rw [h]
      · exact Nat.le_max_left ..
      · exact Nat.le_max_right ..
    obtain ⟨s₁, hone, hinv₁, hlens₁⟩ := stepSyncSlot_done seqLens eagerReclaim hinv
      (hrs r List.mem_cons_self) (hpages.trans hfits)
    obtain ⟨s', hrest, hinv', hfinal⟩ := ih (fun q hq => hrs q (List.mem_cons_of_mem _ hq)) hinv₁
      (fun q => hlens₁ ▸ hlens' q)
    refine ⟨s', ?_, hinv', fun q => ?_⟩
    · rw [Outcome.forEach_cons, hone, Outcome.andThen_done, hrest]
    · rw [hfinal q, hlens₁]
      by_cases hq : q = r
      · simp [hq]
      · simp [hq]

/-- **A synchronous step succeeds** if the blocks for the larger of the old and the new length of
    every slot exist; all slots then have their new lengths. -/
theorem stepSync_done (seqLens : Nat → Nat) (eagerReclaim : Bool) (hinv : PageInv cfg reserved s)
    (hfits : peakPages cfg s.currSeqLengths seqLens ≤ totalKvblocks cfg reserved) :
    ∃ s', stepSync cfg seqLens eagerReclaim s = .done s' ∧ PageInv cfg reserved s' ∧
      ∀ r, r < cfg.maxBatchSize → s'.currSeqLengths r = seqLens r := by
  obtain ⟨s', hrun, hinv', hlens⟩ := forEach_stepSyncSlot_done s.currSeqLengths seqLens eagerReclaim
    (List.range cfg.maxBatchSize) (by simp) hinv (fun _ => .inl rfl) hfits
  exact ⟨s', hrun, hinv', fun r hr => (hlens r).trans (if_pos (List.mem_range.mpr hr))⟩

/-! ## The reported number of free blocks -/

/-- The overcommitted blocks, up to the wrap-around of `u64`. -/
theorem overcommitted_modEq (cfg : Config) (s : State) (rs : List Nat) (acc : Nat) :
    rs.foldl (fun acc r =>
        (acc + s.mappedPages r +
          (u64Size - cfg.tokensToPages (s.currSeqLengths r))) % u64Size) acc +
      (rs.map fun r => cfg.tokensToPages (s.currSeqLengths r)).sum ≡
        acc + (rs.map s.mappedPages).sum [MOD u64Size] := by
  induction rs generalizing acc with
  | nil => rfl
  | cons r rs ih =>
    -- a subtraction in `u64` adds the complement
    have hlt : cfg.tokensToPages (s.currSeqLengths r) ≤ u64Size :=
      (Nat.div_le_self _ _).trans (Nat.mod_lt _ u64Size_pos).le
    rw [List.foldl_cons, List.map_cons, List.map_cons, List.sum_cons, List.sum_cons]
    generalize cfg.tokensToPages (s.currSeqLengths r) = pages at hlt ⊢
    generalize hsum : (rs.map fun r => cfg.tokensToPages (s.currSeqLengths r)).sum = total at ih ⊢
    have hnext := (ih ((acc + s.mappedPages r + (u64Size - pages)) % u64Size)).add_right pages
    have hwrap : (acc + s.mappedPages r + (u64Size - pages)) % u64Size ≡
        acc + s.mappedPages r + (u64Size - pages) [MOD u64Size] := Nat.mod_modEq _ _
    rw [Nat.add_comm pages, ← Nat.add_assoc]
    refine hnext.trans (((hwrap.add_right _).add_right pages).trans ?_)
    have hcancel : acc + s.mappedPages r + (u64Size - pages) + (rs.map s.mappedPages).sum + pages =
        acc + (s.mappedPages r + (rs.map s.mappedPages).sum) + u64Size := by omega
    rw [hcancel]
    exact Nat.add_modEq_right

theorem numFreeKvblocks_lt (cfg : Config) (s : State) : numFreeKvblocks cfg s < u64Size :=
  Nat.mod_lt _ u64Size_pos

/-- The reported blocks and those the recorded lengths need add up to the reserved ones, up to
    the wrap-around of `u64`. -/
theorem PageInv.numFreeKvblocks_modEq (hinv : PageInv cfg reserved s) :
    numFreeKvblocks cfg s + totalPages cfg s.currSeqLengths ≡
      totalKvblocks cfg reserved [MOD u64Size] := by
  have hover := overcommitted_modEq cfg s (List.range cfg.maxBatchSize) 0
  rw [Nat.zero_add] at hover
  have hwrap : numFreeKvblocks cfg s ≡ cfg.pagesToKvblocks s.pages.length +
      getNumOvercommittedKvblocks cfg s [MOD u64Size] := Nat.mod_modEq _ _
  -- the reserved blocks are those in the pool and those mapped
  rw [← hinv.pool_add_mapped]
  apply (hwrap.add_right _).trans
  rw [Nat.add_assoc]
  exact hover.add_left _

/-- The reported number is determined by the recorded lengths. -/
theorem PageInv.numFreeKvblocks_congr {s' : State} (hinv : PageInv cfg reserved s)
    (hinv' : PageInv cfg reserved s') (hlens : s'.currSeqLengths = s.currSeqLengths) :
    numFreeKvblocks cfg s' = numFreeKvblocks cfg s := by
  have h' := hinv'.numFreeKvblocks_modEq
  rw [hlens] at h'
  have hcongr : numFreeKvblocks cfg s' ≡ numFreeKvblocks cfg s [MOD u64Size] :=
    Nat.ModEq.add_right_cancel' _ (h'.trans hinv.numFreeKvblocks_modEq.symm)
  -- both numbers are below `2 ^ 64`, so congruent means equal
  exact hcongr.eq_of_lt_of_lt (numFreeKvblocks_lt cfg s') (numFreeKvblocks_lt cfg s)

/-- What is reported if the recorded lengths can be served. -/
theorem PageInv.numFreeKvblocks_eq_mod (hinv : PageInv cfg reserved s)
    (hfits : totalPages cfg s.currSeqLengths ≤ totalKvblocks cfg reserved) :
    numFreeKvblocks cfg s =
      (totalKvblocks cfg reserved - totalPages cfg s.currSeqLengths) % u64Size := by
  have hdiff : numFreeKvblocks cfg s ≡
      totalKvblocks cfg reserved - totalPages cfg s.currSeqLengths [MOD u64Size] := by
    apply Nat.ModEq.add_right_cancel' (totalPages cfg s.currSeqLengths)
    rw [Nat.sub_add_cancel hfits]
    exact hinv.numFreeKvblocks_modEq
  rw [← hdiff, Nat.mod_eq_of_lt (numFreeKvblocks_lt cfg s)]

/-- **Reported free blocks are free**: they and the blocks the recorded lengths need exist. -/
theorem PageInv.numFreeKvblocks_add_le (hinv : PageInv cfg reserved s)
    (hfits : totalPages cfg s.currSeqLengths ≤ totalKvblocks cfg reserved) :
    numFreeKvblocks cfg s + totalPages cfg s.currSeqLengths ≤ totalKvblocks cfg reserved := by
  have hle : numFreeKvblocks cfg s ≤
      totalKvblocks cfg reserved - totalPages cfg s.currSeqLengths := by
    rw [hinv.numFreeKvblocks_eq_mod hfits]
    exact Nat.mod_le _ _
  omega

/-- A `u64` amount of memory makes up fewer than `2 ^ 64` blocks. -/
theorem totalKvblocks_reserved_lt (cfg : Config) (newPage : Nat → Page) (freeMemory : UInt64) :
    totalKvblocks cfg (reservePhysicalPages cfg newPage freeMemory.toNat State.init).pages <
      u64Size := by
  have hlen : (reservePhysicalPages cfg newPage freeMemory.toNat State.init).pages.length ≤
      freeMemory.toNat := by
    simp only [reservePhysicalPages, State.init, List.append_nil, List.length_reverse,
      List.length_map, List.length_range, List.length_nil, Nat.sub_zero]
    exact (Nat.sub_le _ _).trans (Nat.div_le_self _ _)
  calc totalKvblocks cfg (reservePhysicalPages cfg newPage freeMemory.toNat State.init).pages
      ≤ (reservePhysicalPages cfg newPage freeMemory.toNat State.init).pages.length :=
        Nat.div_le_self _ _
    _ ≤ freeMemory.toNat := hlen
    _ < u64Size := freeMemory.toNat_lt

/-- **The reported number of free blocks is exact in machine arithmetic**: in every reachable
    state it is the number of reserved blocks less those that the recorded lengths need, modulo
    `2 ^ 64`, and the difference itself when that is not negative. -/
theorem numFreeKvblocks_exact (cfg : Config) (newPage : Nat → Page) (freeMemory : UInt64)
    (calls : List Call) :
    let s₀ := reservePhysicalPages cfg newPage freeMemory.toNat State.init
    let s := runCalls cfg calls s₀
    let required := totalPages cfg s.currSeqLengths
    (numFreeKvblocks cfg s : Int) =
        ((totalKvblocks cfg s₀.pages : Int) - required) % (u64Size : Int) ∧
      (required ≤ totalKvblocks cfg s₀.pages →
        numFreeKvblocks cfg s = totalKvblocks cfg s₀.pages - required) := by
  intro s₀ s required
  have hinv : PageInv cfg s₀.pages s := runCalls_inv calls (reservePhysicalPages_inv ..)
  constructor
  · have hcongr : (numFreeKvblocks cfg s : Int) ≡
        (totalKvblocks cfg s₀.pages : Int) - required [ZMOD u64Size] := by
      have hsum : ((numFreeKvblocks cfg s + required : Nat) : Int) ≡
          (totalKvblocks cfg s₀.pages : Nat) [ZMOD u64Size] :=
        Int.natCast_modEq_iff.mpr hinv.numFreeKvblocks_modEq
      have hcancel := hsum.sub_right (required : Int)
      rwa [Nat.cast_add, add_sub_cancel_right] at hcancel
    -- the reported number is its own residue
    rw [← hcongr, ← Int.natCast_mod, Nat.mod_eq_of_lt (numFreeKvblocks_lt cfg s)]
  · intro hfits
    have hlt := totalKvblocks_reserved_lt cfg newPage freeMemory
    rw [hinv.numFreeKvblocks_eq_mod hfits]
    exact Nat.mod_eq_of_lt ((Nat.sub_le _ _).trans_lt hlt)

end VAttention.Allocator
