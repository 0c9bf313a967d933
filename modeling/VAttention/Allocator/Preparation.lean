import Mathlib.Algebra.BigOperators.Intervals
import VAttention.Allocator.Background

/-!
# Preparing the next decode step

A run of `do_kvcache_memory_management` counts the blocks that the active slots need for one more
token, reclaims blocks if the pool has fewer, and then maps the missing ones.  Reclaiming goes from
the highest slot down, takes what a slot does not need for its recorded length, and ends as soon as
the counted blocks are there.  The block that an active slot already has for its next token is
taken like any other, and nobody has counted it.

## Layers

- **Layer A**: what the next token needs, and what is counted.
- **Layer B**: what reclaiming leaves to each slot.
- **Layer C**: the eager loops.
- **Layer D**: when a complete run prepares the next step.
-/

namespace VAttention.Allocator

open VAttention.Lib

variable {cfg : Config} {reserved : List Page} {s s₁ s₂ s' : State}

/-! ## Layer A: what the next token needs -/

/-- Blocks that slot `r` should have for one more token; an inactive slot needs none. -/
def nextPages (cfg : Config) (s : State) (r : Nat) : Nat :=
  if s.isActiveReq r then
    min cfg.maxPagesPerReq (cfg.tokensToPages ((s.currSeqLengths r + 1) % u64Size))
  else 0

/-- Every active slot has the blocks for its recorded length. -/
def Covered (cfg : Config) (s : State) : Prop :=
  ∀ r, r < cfg.maxBatchSize → s.isActiveReq r = true →
    cfg.tokensToPages (s.currSeqLengths r) ≤ s.mappedPages r

/-- Every active slot has the blocks for one more token. -/
def Prepared (cfg : Config) (s : State) : Prop :=
  ∀ r, r < cfg.maxBatchSize → s.isActiveReq r = true → nextPages cfg s r ≤ s.mappedPages r

theorem nextPages_of_inactive {r : Nat} (h : s.isActiveReq r = false) : nextPages cfg s r = 0 := by
  rw [nextPages, h]
  rfl

theorem nextPages_congr (h : s'.currSeqLengths = s.currSeqLengths) (r : Nat) :
    nextPages cfg s' r = nextPages cfg s r := by
  rw [nextPages, nextPages, State.isActiveReq, State.isActiveReq, h]

theorem nextPages_le_succ {r m : Nat} (hm : s.isActiveReq r = true →
    cfg.tokensToPages (s.currSeqLengths r) ≤ m) : nextPages cfg s r ≤ m + 1 := by
  cases hactive : s.isActiveReq r with
  | false =>
    rw [nextPages_of_inactive hactive]
    exact Nat.zero_le _
  | true =>
    rw [nextPages, if_pos hactive]
    have hsucc := cfg.tokensToPages_succ_le (s.currSeqLengths r)
    have hcovered := hm hactive
    exact (Nat.min_le_right ..).trans (by omega)

/-- In a slot that has the blocks for its length, `need_new_page_async` is what one more token
    needs beyond the mapped blocks. -/
theorem needNewPageAsync_one {r : Nat} (hroom : s.mappedPages r ≤ cfg.maxPagesPerReq)
    (hcovered : s.isActiveReq r = true →
      cfg.tokensToPages (s.currSeqLengths r) ≤ s.mappedPages r) :
    needNewPageAsync cfg s r 1 = nextPages cfg s r - s.mappedPages r := by
  cases hactive : s.isActiveReq r with
  | false => simp [needNewPageAsync, nextPages, hactive]
  | true =>
    have hsucc := cfg.tokensToPages_succ_le (s.currSeqLengths r)
    have hneed := hcovered hactive
    simp only [needNewPageAsync, nextPages, hactive, Bool.not_true, Bool.false_eq_true, if_false,
      if_true]
    split_ifs with hfull
    · omega
    · -- below the page limit one more block still fits
      rw [min_eq_right (by omega)]

/-- The blocks that a run of the background manager counts before it reclaims. -/
def nextDemand (cfg : Config) (s : State) : Nat :=
  totalMapped cfg fun r => nextPages cfg s r - s.mappedPages r

/-- The sum of `need_new_page_async` over the slots does not wrap around. -/
theorem PageInv.counted_demand (hinv : PageInv cfg reserved s) (hcovered : Covered cfg s)
    (hfits : totalMapped cfg (nextPages cfg s) < u64Size) :
    (List.range cfg.maxBatchSize).foldl
      (fun acc r => (acc + needNewPageAsync cfg s r 1) % u64Size) 0 = nextDemand cfg s := by
  have hneeds : (List.range cfg.maxBatchSize).map (fun r => needNewPageAsync cfg s r 1) =
      (List.range cfg.maxBatchSize).map fun r => nextPages cfg s r - s.mappedPages r := by
    refine List.map_congr_left fun r hr => ?_
    have hr := List.mem_range.mp hr
    exact needNewPageAsync_one (hinv.room r hr).le_maxPagesPerReq (hcovered r hr)
  have hle : nextDemand cfg s ≤ totalMapped cfg (nextPages cfg s) :=
    totalMapped_mono fun _ _ => Nat.sub_le ..
  rw [foldl_add_mod _ _ u64Size_pos, hneeds, Nat.zero_add]
  exact Nat.mod_eq_of_lt (hle.trans_lt hfits)

/-! ## Layer B: what reclaiming leaves -/

/-- Blocks of slot `r` beyond those for its recorded length. -/
def sparePages (cfg : Config) (s : State) (r : Nat) : Nat :=
  s.mappedPages r - cfg.tokensToPages (s.currSeqLengths r)

/-- Blocks that slot `q` has after `demand` blocks have been reclaimed from the slots below `k`,
    highest first: it loses its spare ones if the pool with the spare blocks of the slots between
    is still too small. -/
def retainedPages (cfg : Config) (s : State) (demand k q : Nat) : Nat :=
  if cfg.pagesToKvblocks s.pages.length + ∑ r ∈ Finset.Ico (q + 1) k, sparePages cfg s r < demand
  then min (s.mappedPages q) (cfg.tokensToPages (s.currSeqLengths q))
  else s.mappedPages q

theorem retainedPages_le (demand k q : Nat) : retainedPages cfg s demand k q ≤ s.mappedPages q := by
  unfold retainedPages
  split_ifs
  · exact Nat.min_le_left ..
  · exact le_rfl

theorem le_retainedPages (demand k q : Nat) :
    min (s.mappedPages q) (cfg.tokensToPages (s.currSeqLengths q)) ≤
      retainedPages cfg s demand k q := by
  unfold retainedPages
  split_ifs
  · exact le_rfl
  · exact Nat.min_le_left ..

theorem retainedPages_of_available {demand : Nat} (h : kvblocksAvailable cfg s demand = true)
    (k q : Nat) : retainedPages cfg s demand k q = s.mappedPages q := by
  have hle : demand ≤ cfg.pagesToKvblocks s.pages.length := of_decide_eq_true h
  exact if_neg (by omega)

/-- Releasing the spare blocks of a slot adds them to the pool. -/
theorem Remapped.pool_release (hinv : PageInv cfg reserved s) {r : Nat} (hr : r < cfg.maxBatchSize)
    (h : Remapped cfg reserved s s₁ (Function.update s.mappedPages r
      (min (s.mappedPages r) (cfg.tokensToPages (s.currSeqLengths r))))) :
    cfg.pagesToKvblocks s₁.pages.length =
      cfg.pagesToKvblocks s.pages.length + sparePages cfg s r := by
  have hbefore := hinv.pool_add_mapped
  have hafter := h.inv.pool_add_mapped
  rw [h.mapped] at hafter
  have hsum := totalMapped_update cfg s.mappedPages hr
    (min (s.mappedPages r) (cfg.tokensToPages (s.currSeqLengths r)))
  unfold sparePages
  omega

/-- What is left to the lower slots can be told before or after the release of the highest one. -/
theorem Remapped.retainedPages_eq (hinv : PageInv cfg reserved s) {demand k q : Nat}
    (hk : k < cfg.maxBatchSize) (hq : q < k)
    (h : Remapped cfg reserved s s₁ (Function.update s.mappedPages k
      (min (s.mappedPages k) (cfg.tokensToPages (s.currSeqLengths k))))) :
    retainedPages cfg s₁ demand k q = retainedPages cfg s demand (k + 1) q := by
  have hmapped : ∀ r, r < k → s₁.mappedPages r = s.mappedPages r := by
    intro r hr
    rw [h.mapped, Function.update_of_ne hr.ne]
  have hspare : ∑ r ∈ Finset.Ico (q + 1) k, sparePages cfg s₁ r =
      ∑ r ∈ Finset.Ico (q + 1) k, sparePages cfg s r := by
    refine Finset.sum_congr rfl fun r hr => ?_
    rw [sparePages, sparePages, hmapped r (Finset.mem_Ico.mp hr).2, h.lengths]
  unfold retainedPages
  rw [Finset.sum_Ico_succ_top hq, hspare, h.pool_release hinv hk, hmapped q hq, h.lengths,
    Nat.add_assoc, Nat.add_comm (sparePages cfg s k)]

/-- **Run lemma** of the reclaim loop, exact for every slot. -/
theorem reclaimLoop_retains (demand k : Nat) (hk : k ≤ cfg.maxBatchSize)
    (hinv : PageInv cfg reserved s) :
    ∃ f, Remapped cfg reserved s (reclaimLoop cfg demand (List.range k).reverse s) f ∧
      (∀ q, q < k → f q = retainedPages cfg s demand k q) ∧
      ∀ q, k ≤ q → f q = s.mappedPages q := by
  induction k generalizing s with
  | zero => exact ⟨_, .refl hinv, fun _ hq => absurd hq (Nat.not_lt_zero _), fun _ _ => rfl⟩
  | succ k ih =>
    rw [List.range_succ, List.reverse_append, List.reverse_singleton, List.singleton_append,
      reclaimLoop]
    split
    case isTrue havail =>
      exact ⟨_, .refl hinv, fun q _ => (retainedPages_of_available havail _ q).symm,
        fun _ _ => rfl⟩
    case isFalse hfull =>
      dsimp only
      -- a slot without spare blocks is skipped, which is a release of nothing
      obtain ⟨s₁, hrest, hone⟩ : ∃ s₁,
          (if s.mappedPages k ≤ cfg.tokensToPages (s.currSeqLengths k) then
            reclaimLoop cfg demand (List.range k).reverse s
          else reclaimLoop cfg demand (List.range k).reverse
            (releaseKvcachePagesSome cfg k (cfg.tokensToPages (s.currSeqLengths k)) s)) =
              reclaimLoop cfg demand (List.range k).reverse s₁ ∧
          Remapped cfg reserved s s₁ (Function.update s.mappedPages k
            (min (s.mappedPages k) (cfg.tokensToPages (s.currSeqLengths k)))) := by
        split_ifs with hle
        · refine ⟨s, rfl, ?_⟩
          rw [min_eq_left hle, Function.update_eq_self]
          exact .refl hinv
        · exact ⟨_, rfl, releaseKvcachePagesSome_spec hk _ hinv⟩
      rw [hrest]
      obtain ⟨f, hre, hbelow, habove⟩ := ih (Nat.le_of_succ_le hk) hone.inv
      refine ⟨f, hone.trans hre, fun q hq => ?_, fun q hq => ?_⟩
      · rcases Nat.lt_succ_iff_lt_or_eq.mp hq with hq | rfl
        · rw [hbelow q hq, hone.retainedPages_eq hinv hk hq]
        · have hlt : cfg.pagesToKvblocks s.pages.length < demand := by
            simpa [kvblocksAvailable] using hfull
          rw [habove q le_rfl, hone.mapped, Function.update_self, retainedPages, Finset.Ico_self,
            Finset.sum_empty, Nat.add_zero, if_pos hlt]
      · rw [habove q (by omega), hone.mapped, Function.update_of_ne (by omega)]

/-- Blocks that slot `q` has when the background manager starts to map. -/
def keptPages (cfg : Config) (s : State) (q : Nat) : Nat :=
  retainedPages cfg s (nextDemand cfg s) cfg.maxBatchSize q

/-- `s₁` is `s` after the reclaim phase of the background manager. -/
structure Reclaimed (cfg : Config) (reserved : List Page) (s s₁ : State) : Prop where
  inv : PageInv cfg reserved s₁
  lengths : s₁.currSeqLengths = s.currSeqLengths
  mapped : ∀ q, q < cfg.maxBatchSize → s₁.mappedPages q = keptPages cfg s q

theorem reclaimIfNeeded_reclaimed (hinv : PageInv cfg reserved s) :
    Reclaimed cfg reserved s (if kvblocksAvailable cfg s (nextDemand cfg s) then s
      else reclaimKvblocksOnDemand cfg (nextDemand cfg s) s) := by
  split_ifs with havail
  · exact ⟨hinv, rfl, fun q _ => (retainedPages_of_available havail _ q).symm⟩
  · obtain ⟨f, hre, hbelow, -⟩ :=
      reclaimLoop_retains (nextDemand cfg s) cfg.maxBatchSize le_rfl hinv
    refine ⟨hre.inv, hre.lengths, fun q hq => ?_⟩
    rw [reclaimKvblocksOnDemand, hre.mapped, hbelow q hq, keptPages]

/-! ## Layer C: the eager loops -/

/-- **The condition**: after the reclaim phase the missing blocks exist, and each of them lies in
    the window of its slot. -/
structure PreparationFits (cfg : Config) (reserved : List Page) (s : State) : Prop where
  blocks : totalMapped cfg (fun r => max (nextPages cfg s r) (keptPages cfg s r)) ≤
    totalKvblocks cfg reserved
  offsets : ∀ r, r < cfg.maxBatchSize → keptPages cfg s r < nextPages cfg s r →
    cfg.isValidOffset r (cfg.blockOffset r (keptPages cfg s r)) = true

/-- Growing a slot by one block in the background. -/
theorem growKvcachePhys_one {r : Nat} (hinv : PageInv cfg reserved s) (hr : r < cfg.maxBatchSize)
    (hpool : 1 + totalMapped cfg s.mappedPages ≤ totalKvblocks cfg reserved)
    (hvalid : cfg.isValidOffset r (cfg.blockOffset r (s.mappedPages r)) = true) :
    ∃ s', growKvcachePhys cfg r 1 false s = .done s' ∧
      Remapped cfg reserved s s' (Function.update s.mappedPages r (s.mappedPages r + 1)) := by
  have havail : kvblocksAvailable cfg s 1 = true := (hinv.kvblocksAvailable_iff 1).mpr hpool
  have hpages : cfg.pagesPerKvblock ≤ s.pages.length := by
    rw [← Nat.one_mul cfg.pagesPerKvblock]
    exact kvblocksAvailable_pool havail
  obtain ⟨s', hone, hre⟩ := mapReqPageOne_spec hinv hr hvalid hpages
  refine ⟨s', ?_, hre⟩
  simp only [growKvcachePhys, Nat.one_ne_zero, if_false, havail, Bool.not_true, Bool.false_eq_true,
    growLoop, hvalid, if_true, hone, Outcome.andThen_done]

/-- The first round of the eager loops: the slots outside `rest` have been served, and no slot has
    got more than its next token needs. -/
structure FirstRound (cfg : Config) (reserved : List Page) (s : State) (rest : List Nat)
    (e : EagerState) : Prop where
  slots : ∀ q ∈ rest, q < cfg.maxBatchSize
  inv : PageInv cfg reserved e.st
  lengths : e.st.currSeqLengths = s.currSeqLengths
  running : e.finished = false
  lower : ∀ q, q < cfg.maxBatchSize → keptPages cfg s q ≤ e.st.mappedPages q
  upper : ∀ q, q < cfg.maxBatchSize →
    e.st.mappedPages q ≤ max (nextPages cfg s q) (keptPages cfg s q)
  served : ∀ q, q < cfg.maxBatchSize → q ∉ rest → nextPages cfg s q ≤ e.st.mappedPages q

/-- A slot that is covered keeps the blocks for its length. -/
theorem Covered.le_keptPages (h : Covered cfg s) {r : Nat} (hr : r < cfg.maxBatchSize)
    (hactive : s.isActiveReq r = true) :
    cfg.tokensToPages (s.currSeqLengths r) ≤ keptPages cfg s r := by
  have hle : min (s.mappedPages r) (cfg.tokensToPages (s.currSeqLengths r)) ≤ keptPages cfg s r :=
    le_retainedPages ..
  rwa [min_eq_right (h r hr hactive)] at hle

/-- **Step lemma** of the first round. -/
theorem FirstRound.step {r : Nat} {rest : List Nat} {e : EagerState} (hcovered : Covered cfg s)
    (hfits : PreparationFits cfg reserved s) (h : FirstRound cfg reserved s (r :: rest) e) :
    (eagerBody cfg 1 r e).Ensures (FirstRound cfg reserved s rest) (fun _ _ => False) := by
  have hr := h.slots r List.mem_cons_self
  have hslots : ∀ q ∈ rest, q < cfg.maxBatchSize :=
    fun q hq => h.slots q (List.mem_cons_of_mem _ hq)
  have hlower := h.lower r hr
  -- the slot is asked for what its next token still needs
  have hneed : needNewPageAsync cfg e.st r 1 = nextPages cfg s r - e.st.mappedPages r := by
    rw [← nextPages_congr h.lengths]
    refine needNewPageAsync_one (h.inv.room r hr).le_maxPagesPerReq fun hactive => ?_
    rw [State.isActiveReq, h.lengths] at hactive
    rw [h.lengths]
    exact (hcovered.le_keptPages hr hactive).trans hlower
  rw [eagerBody, h.running, if_neg Bool.false_ne_true]
  dsimp only
  rw [hneed]
  by_cases henough : nextPages cfg s r ≤ e.st.mappedPages r
  · rw [Nat.sub_eq_zero_of_le henough]
    refine ⟨hslots, h.inv, h.lengths, rfl, h.lower, h.upper, fun q hq hrest => ?_⟩
    by_cases hqr : q = r
    · rw [hqr]
      exact henough
    · exact h.served q hq (by simp [hqr, hrest])
  · -- exactly one block is missing, the one behind those that the slot has kept
    have hsucc : nextPages cfg s r ≤ keptPages cfg s r + 1 :=
      nextPages_le_succ (hcovered.le_keptPages hr)
    have hkept : e.st.mappedPages r = keptPages cfg s r := by omega
    have hnext : nextPages cfg s r = e.st.mappedPages r + 1 := by omega
    have hgrown : ∀ q, q < cfg.maxBatchSize →
        Function.update e.st.mappedPages r (e.st.mappedPages r + 1) q ≤
          max (nextPages cfg s q) (keptPages cfg s q) := by
      intro q hq
      by_cases hqr : q = r
      · rw [hqr, Function.update_self, ← hnext]
        exact Nat.le_max_left ..
      · rw [Function.update_of_ne hqr]
        exact h.upper q hq
    have hpool : 1 + totalMapped cfg e.st.mappedPages ≤ totalKvblocks cfg reserved := by
      have hsum := totalMapped_update cfg e.st.mappedPages hr (e.st.mappedPages r + 1)
      have hmax := (totalMapped_mono hgrown).trans hfits.blocks
      omega
    have hvalid : cfg.isValidOffset r (cfg.blockOffset r (e.st.mappedPages r)) = true := by
      rw [hkept]
      exact hfits.offsets r hr (by omega)
    obtain ⟨st, hgrow, hre⟩ := growKvcachePhys_one h.inv hr hpool hvalid
    rw [hnext, Nat.add_sub_cancel_left, hgrow]
    refine ⟨hslots, hre.inv, hre.lengths.trans h.lengths, rfl, fun q hq => ?_, fun q hq => ?_,
      fun q hq hrest => ?_⟩
    all_goals
      show _ ≤ _
      dsimp only
      rw [hre.mapped]
    · refine (h.lower q hq).trans ?_
      by_cases hqr : q = r
      · rw [hqr, Function.update_self]
        exact Nat.le_succ _
      · rw [Function.update_of_ne hqr]
    · exact hgrown q hq
    · by_cases hqr : q = r
      · rw [hqr, Function.update_self, hnext]
      · rw [Function.update_of_ne hqr]
        exact h.served q hq (by simp [hqr, hrest])

/-- Growing in the background maps blocks only. -/
theorem Extends.grow (h : Extends cfg reserved s s₁) {r : Nat} (hr : r < cfg.maxBatchSize)
    (n : Nat) :
    (growKvcachePhys cfg r n false s₁).Ensures (Extends cfg reserved s) (fun _ _ => False) :=
  (growKvcachePhys_async n h.inv hr).mono fun _ => h.trans

theorem eagerLoop_extends (hinv : PageInv cfg reserved s₁) :
    (eagerLoop cfg { st := s₁, nrMappedCurr := 0, finished := false }).Ensures
      (fun e => Extends cfg reserved s₁ e.st) (fun _ _ => False) :=
  eagerLoop_ensures (fun _ hr n _ h => h.grow hr n) (Extends.refl hinv)

/-- **Run lemma** of the eager loops: the first round serves every slot, the later ones take
    nothing back. -/
theorem eagerLoop_prepares (hcovered : Covered cfg s) (hfits : PreparationFits cfg reserved s)
    (hre : Reclaimed cfg reserved s s₁) :
    (eagerLoop cfg { st := s₁, nrMappedCurr := 0, finished := false }).Ensures
      (fun e => ∀ q, q < cfg.maxBatchSize → nextPages cfg s q ≤ e.st.mappedPages q)
      (fun _ _ => False) := by
  have hstart : FirstRound cfg reserved s (List.range cfg.maxBatchSize)
      { st := s₁, nrMappedCurr := 0, finished := false } := by
    refine ⟨by simp, hre.inv, hre.lengths, rfl, fun q hq => (hre.mapped q hq).ge, fun q hq => ?_,
      fun q hq hrest => absurd (List.mem_range.mpr hq) hrest⟩
    show s₁.mappedPages q ≤ _
    rw [hre.mapped q hq]
    exact Nat.le_max_right ..
  have hfirst := Outcome.Ensures.forEach (fun _ _ _ => FirstRound.step hcovered hfits) _ _ hstart
  refine hfirst.andThen fun e₁ h₁ => ?_
  refine (eagerRounds_ensures (P := Extends cfg reserved e₁.st)
    (fun _ hr n _ h => h.grow hr n) _ (Extends.refl h₁.inv)).mono fun e h q hq => ?_
  exact (h₁.served q hq (by simp)).trans (h.mapped q)

/-! ## Layer D: a complete run -/

/-- **Inversion of a run**: the reclaim phase, then nothing if the counted blocks are not there, or
    the eager loops and perhaps the release of a block of an inactive slot. -/
theorem doKvcacheMemoryManagement_phases (hinv : PageInv cfg reserved s)
    (hcovered : Covered cfg s) (hfits : totalMapped cfg (nextPages cfg s) < u64Size) :
    ∃ s₁, Reclaimed cfg reserved s s₁ ∧
      (kvblocksAvailable cfg s₁ (nextDemand cfg s) = false ∧
          doKvcacheMemoryManagement cfg s = .done s₁ ∨
        ∃ e, eagerLoop cfg { st := s₁, nrMappedCurr := 0, finished := false } = .done e ∧
          doKvcacheMemoryManagement cfg s =
            .done (if nextDemand cfg s != 0 then e.st else doReclaimPages cfg e.st)) := by
  have hre := reclaimIfNeeded_reclaimed hinv
  refine ⟨_, hre, ?_⟩
  unfold doKvcacheMemoryManagement
  dsimp only
  rw [hinv.counted_demand hcovered hfits]
  generalize (if kvblocksAvailable cfg s (nextDemand cfg s) then s
    else reclaimKvblocksOnDemand cfg (nextDemand cfg s) s) = s₁ at hre ⊢
  cases havail : kvblocksAvailable cfg s₁ (nextDemand cfg s) with
  | false => exact .inl ⟨rfl, rfl⟩
  | true =>
    have hloop := eagerLoop_extends hre.inv
    cases hrun : eagerLoop cfg { st := s₁, nrMappedCurr := 0, finished := false } with
    | throw err e =>
      rw [hrun] at hloop
      exact hloop.elim
    | done e => exact .inr ⟨e, rfl, rfl⟩

/-- The end of a run does not touch the active slots. -/
theorem finish_active (hinv : PageInv cfg reserved s) (keep : Bool) :
    (if keep then s else doReclaimPages cfg s).currSeqLengths = s.currSeqLengths ∧
      ∀ q, s.isActiveReq q = true →
        (if keep then s else doReclaimPages cfg s).mappedPages q = s.mappedPages q := by
  cases keep with
  | true => exact ⟨rfl, fun _ _ => rfl⟩
  | false =>
    obtain ⟨f, hre, hactive⟩ := doReclaimPages_spec hinv
    exact ⟨hre.lengths, fun q hq => (congrFun hre.mapped q).trans (hactive q hq)⟩

/-- Being prepared only depends on the blocks of the active slots. -/
theorem prepared_iff_of_active {m : Nat → Nat} (hlengths : s'.currSeqLengths = s.currSeqLengths)
    (hmapped : ∀ q, s.isActiveReq q = true → s'.mappedPages q = m q) :
    Prepared cfg s' ↔ ∀ q, q < cfg.maxBatchSize → nextPages cfg s q ≤ m q := by
  have hactive : ∀ q, s'.isActiveReq q = s.isActiveReq q := by
    intro q
    rw [State.isActiveReq, State.isActiveReq, hlengths]
  constructor
  · intro h q hq
    cases hcase : s.isActiveReq q with
    | false =>
      rw [nextPages_of_inactive hcase]
      exact Nat.zero_le _
    | true =>
      rw [← hmapped q hcase, ← nextPages_congr hlengths]
      exact h q hq ((hactive q).trans hcase)
  · intro h q hq hcase
    rw [hactive] at hcase
    rw [nextPages_congr hlengths, hmapped q hcase]
    exact h q hq

/-- If mapping more blocks has prepared every slot, there was room for them. -/
theorem Reclaimed.preparationFits (hre : Reclaimed cfg reserved s s₁)
    (hext : Extends cfg reserved s₁ s₂)
    (h : ∀ q, q < cfg.maxBatchSize → nextPages cfg s q ≤ s₂.mappedPages q) :
    PreparationFits cfg reserved s where
  blocks := by
    have hle : totalMapped cfg (fun r => max (nextPages cfg s r) (keptPages cfg s r)) ≤
        totalMapped cfg s₂.mappedPages := by
      refine totalMapped_mono fun q hq => max_le (h q hq) ?_
      rw [← hre.mapped q hq]
      exact hext.mapped q
    have hall := hext.inv.pool_add_mapped
    omega
  offsets r hr hlt := (hext.inv.room r hr).isValidOffset (hlt.trans_le (h r hr))

/-- If there is room, the counted blocks are available after the reclaim phase. -/
theorem Reclaimed.available (hre : Reclaimed cfg reserved s s₁)
    (hfits : PreparationFits cfg reserved s) :
    kvblocksAvailable cfg s₁ (nextDemand cfg s) = true := by
  rw [hre.inv.kvblocksAvailable_iff, nextDemand, totalMapped, totalMapped, ← List.sum_map_add]
  refine le_trans ?_ hfits.blocks
  refine totalMapped_mono fun q hq => ?_
  -- what was counted for a slot is at most what it misses now
  have hle : keptPages cfg s q ≤ s.mappedPages q := retainedPages_le ..
  rw [hre.mapped q hq]
  omega

/-- **When the next step is prepared**: from every reachable state in which the active slots have
    the blocks for their lengths and the blocks for one more token of each exist, a complete run of
    the background manager returns, and it leaves every active slot with the blocks for one more
    token exactly if these exist next to the blocks that the reclaim phase leaves in place. -/
theorem next_step_prepared_iff (cfg : Config) (newPage : Nat → Page) (freeMemory : UInt64)
    (calls : List Call) :
    let s₀ := reservePhysicalPages cfg newPage freeMemory.toNat State.init
    let s := runCalls cfg calls s₀
    Covered cfg s → totalMapped cfg (nextPages cfg s) ≤ totalKvblocks cfg s₀.pages →
      ∃ s', doKvcacheMemoryManagement cfg s = .done s' ∧
        (Prepared cfg s' ↔ PreparationFits cfg s₀.pages s) := by
  intro s₀ s hcovered hexist
  have hinv : PageInv cfg s₀.pages s := runCalls_inv calls (reservePhysicalPages_inv ..)
  have hlt := hexist.trans_lt (totalKvblocks_reserved_lt cfg newPage freeMemory)
  obtain ⟨s₁, hre, ⟨hfull, hrun⟩ | ⟨e, hloop, hrun⟩⟩ :=
    doKvcacheMemoryManagement_phases hinv hcovered hlt
  · -- the run has ended after the reclaim phase
    refine ⟨s₁, hrun, ?_⟩
    rw [prepared_iff_of_active (m := s₁.mappedPages) hre.lengths fun _ _ => rfl]
    refine ⟨hre.preparationFits (.refl hre.inv), fun hfits => ?_⟩
    rw [hre.available hfits] at hfull
    cases hfull
  · have hext := eagerLoop_extends hre.inv
    rw [hloop] at hext
    have hlengths := hext.lengths.trans hre.lengths
    obtain ⟨hlens, hmapped⟩ := finish_active hext.inv (nextDemand cfg s != 0)
    refine ⟨_, hrun, ?_⟩
    rw [prepared_iff_of_active (m := e.st.mappedPages) (hlens.trans hlengths) fun q hq =>
      hmapped q (by rwa [State.isActiveReq, hlengths])]
    refine ⟨hre.preparationFits hext, fun hfits => ?_⟩
    have hserved := eagerLoop_prepares hcovered hfits hre
    rw [hloop] at hserved
    exact hserved

/-! ### Four blocks for three slots -/

/-- Three slots, one token a page. -/
def threeSlots : Config where
  numLayers := 1
  maxBatchSize := 3
  maxContextLength := 4
  pageSize := 65536
  tokensPerPage := 1
  megacacheEnabled := false
  numLayers_pos := Nat.one_pos
  pageSize_dvd := smallPage_dvd_u64Size
  tokensPerPage_pos := Nat.one_pos

/-- All four blocks are mapped, then the requests of the two upper slots end. -/
def upperSlotsEnd : List Call :=
  [.stepAsync (fun r => [1, 1, 2].getD r 0), .backgroundManager, .freeBatchIdx 2, .freeBatchIdx 1,
    .stepAsync (fun r => [1, 0, 0].getD r 0)]

/-- As before, but a request of one token takes over the upper slot with its two blocks. -/
def upperSlotReused : List Call :=
  [.stepAsync (fun r => [1, 1, 2].getD r 0), .backgroundManager, .freeBatchIdx 2,
    .allocNewBatchIdx 1, .freeBatchIdx 1, .stepAsync (fun r => [1, 0, 1].getD r 0)]

/-- The pool is empty and slot 0 needs a second block: those of the idle slot 2 are reclaimed, and
    slot 0 is prepared. -/
theorem upperSlotsEnd_prepared :
    let s := runCalls threeSlots upperSlotsEnd
      (reservePhysicalPages threeSlots id 524288 State.init)
    s.pages = [] ∧ ∃ s', doKvcacheMemoryManagement threeSlots s = .done s' ∧
      Prepared threeSlots s' := by
  intro s
  have hcovered : Covered threeSlots s := by
    unfold Covered
    decide +kernel
  have hfits : PreparationFits threeSlots
      (reservePhysicalPages threeSlots id 524288 State.init).pages s :=
    ⟨by decide +kernel, by decide +kernel⟩
  obtain ⟨s', hrun, hiff⟩ := next_step_prepared_iff threeSlots id 524288 upperSlotsEnd hcovered
    (by decide +kernel)
  exact ⟨by decide +kernel, s', hrun, hiff.mpr hfits⟩

/-- The pool is empty, slot 0 needs a second block, slot 2 has its second block already, and slot 1
    is idle with one.  Four blocks are enough, but the one that is reclaimed is that of slot 2:
    slot 0 gets it, and slot 2 is left with one block. -/
theorem upperSlotReused_not_prepared :
    let s₀ := reservePhysicalPages threeSlots id 524288 State.init
    let s := runCalls threeSlots upperSlotReused s₀
    Covered threeSlots s ∧
      totalMapped threeSlots (nextPages threeSlots s) ≤ totalKvblocks threeSlots s₀.pages ∧
      ∃ s', doKvcacheMemoryManagement threeSlots s = .done s' ∧
        (List.range 3).map s.mappedPages = [1, 1, 2] ∧
        (List.range 3).map s'.mappedPages = [2, 1, 1] ∧
        nextPages threeSlots s' 2 = 2 ∧ ¬ Prepared threeSlots s' := by
  intro s₀ s
  have hcovered : Covered threeSlots s := by
    unfold Covered
    decide +kernel
  -- the run returns, so its end is the state it leaves behind
  obtain ⟨s', hrun⟩ : ∃ s', doKvcacheMemoryManagement threeSlots s = .done s' := by
    have hinv : PageInv threeSlots s₀.pages s := runCalls_inv _ (reservePhysicalPages_inv ..)
    have hkeeps := doKvcacheMemoryManagement_keepsNeeded hinv
    cases hend : doKvcacheMemoryManagement threeSlots s with
    | done s' => exact ⟨s', rfl⟩
    | throw err s' =>
      rw [hend] at hkeeps
      exact hkeeps.elim
  have hstate : s' = (doKvcacheMemoryManagement threeSlots s).state := by rw [hrun]; rfl
  refine ⟨hcovered, by decide +kernel, s', hrun, by decide +kernel, ?_, ?_, ?_⟩
  all_goals rw [hstate]
  · decide +kernel
  · decide +kernel
  · unfold Prepared
    decide +kernel

end VAttention.Allocator
