import Mathlib.Algebra.Order.Floor.Div
import Mathlib.Data.Rat.Floor
import Mathlib.Tactic.FieldSimp
import VAttention.Allocator.Exactness

/-!
# Fragmentation

`compute_fragmentation_metrics` reports how much of the mapped blocks of a request is not filled
with tokens.  The analytical model of `plot_analytical_fragmentation.py` assumes that a context has
as many blocks as it needs, rounded up.  The two agree for a slot with exactly these blocks.  A
synchronous step leaves such a slot behind unless it had more blocks before: `step_sync` maps what
is missing and never unmaps a block of an active slot.

Percentages are doubles in the source and rationals here.
-/

namespace VAttention.Allocator

open VAttention.Lib

variable {cfg : Config} {reserved : List Page} {s s' : State}

/-! ## Metrics -/

/-- `FragmentationMetrics`. -/
structure FragmentationMetrics where
  seqLen : Nat
  mappedBlocks : Nat
  pagesPerKvblock : Nat
  tokensPerPage : Nat
  mappedTokenCapacity : Nat
  residentTokens : Nat
  slackTokens : Nat
  usefulPayloadBytes : Nat
  mappedPhysicalBytes : Nat
  tokenFillPct : ℚ
  tokenFragPct : ℚ
  payloadUtilPct : ℚ
  payloadOverheadPct : ℚ

/-- The percentage that `part` is of `whole`, and 0 of nothing. -/
def percentOf (part whole : Nat) : ℚ := if 0 < whole then 100 * part / whole else 0

/-- `compute_fragmentation_metrics`; `cached_token_bytes_local` is a global of the extension. -/
def computeFragmentationMetrics (cfg : Config) (cachedTokenBytesLocal seqLen nrMapped : Nat) :
    FragmentationMetrics :=
  let mappedTokenCapacity := nrMapped * cfg.tokensPerPage % u64Size
  let residentTokens := if seqLen < mappedTokenCapacity then seqLen else mappedTokenCapacity
  let slackTokens := mappedTokenCapacity - residentTokens
  let usefulPayloadBytes := residentTokens * cachedTokenBytesLocal % u64Size
  let mappedPhysicalBytes := nrMapped * cfg.pagesPerKvblock * cfg.pageSize % u64Size
  let payloadUtilPct := percentOf usefulPayloadBytes mappedPhysicalBytes
  { seqLen
    mappedBlocks := nrMapped
    pagesPerKvblock := cfg.pagesPerKvblock
    tokensPerPage := cfg.tokensPerPage
    mappedTokenCapacity
    residentTokens
    slackTokens
    usefulPayloadBytes
    mappedPhysicalBytes
    tokenFillPct := percentOf residentTokens mappedTokenCapacity
    tokenFragPct := percentOf slackTokens mappedTokenCapacity
    payloadUtilPct
    payloadOverheadPct := if 0 < mappedPhysicalBytes then 100 - payloadUtilPct else 0 }

/-- `exact_fragmentation_percent` of the plotting script, for one context. -/
def exactFragmentationPercent (context tokensPerPage : Nat) : ℚ :=
  let mappedBlocks : ℚ := ⌈(context : ℚ) / tokensPerPage⌉₊
  100 * (mappedBlocks * tokensPerPage - context) / (mappedBlocks * tokensPerPage)

/-- The ceiling of the script is the division of `tokens_to_pages`. -/
theorem ceil_div_eq {n d : Nat} (hd : 0 < d) : ⌈(n : ℚ) / d⌉₊ = (n + d - 1) / d := by
  have hd' : (0 : ℚ) < d := by exact_mod_cast hd
  refine eq_of_forall_ge_iff fun k => ?_
  rw [← Nat.ceilDiv_eq_add_pred_div, ceilDiv_le_iff_le_mul hd, Nat.ceil_le, div_le_iff₀ hd',
    Nat.mul_comm]
  exact_mod_cast Iff.rfl

theorem Config.NoOverflow.tokensToPages_eq_ceil (h : cfg.NoOverflow) {n : Nat}
    (hn : n ≤ cfg.maxContextLength) : cfg.tokensToPages n = ⌈(n : ℚ) / cfg.tokensPerPage⌉₊ := by
  have hpos := cfg.tokensPerPage_pos
  have hctx := h.context
  rw [ceil_div_eq hpos, Config.tokensToPages, Nat.mod_eq_of_lt (by omega)]

/-- **The metric is the formula** for a context that has the blocks it needs. -/
theorem tokenFragPct_eq_exact (h : cfg.NoOverflow) (cachedTokenBytesLocal : Nat) {n : Nat}
    (hpos : 0 < n) (hn : n ≤ cfg.maxContextLength) :
    (computeFragmentationMetrics cfg cachedTokenBytesLocal n (cfg.tokensToPages n)).tokenFragPct =
      exactFragmentationPercent n cfg.tokensPerPage := by
  have htokens := cfg.tokensPerPage_pos
  have hctx := h.context
  obtain ⟨hle, hlt⟩ := Config.tokensToPages_mul (n := n) (show n + cfg.tokensPerPage ≤ u64Size by
    omega)
  have hcapacity : cfg.tokensToPages n * cfg.tokensPerPage % u64Size =
      cfg.tokensToPages n * cfg.tokensPerPage := Nat.mod_eq_of_lt (by omega)
  have hresident : (if n < cfg.tokensToPages n * cfg.tokensPerPage then n
      else cfg.tokensToPages n * cfg.tokensPerPage) = n := by
    split_ifs <;> omega
  simp only [computeFragmentationMetrics, percentOf, exactFragmentationPercent, hcapacity,
    hresident, ← h.tokensToPages_eq_ceil hn]
  rw [if_pos (by omega), Nat.cast_sub hle, Nat.cast_mul]

/-! ## Slots with exactly the blocks they need -/

/-- No active slot has more blocks than its length needs. -/
def NoExcess (cfg : Config) (seqLens : Nat → Nat) (s : State) : Prop :=
  ∀ q, q < cfg.maxBatchSize → seqLens q ≠ 0 → s.mappedPages q ≤ cfg.tokensToPages (seqLens q)

/-- Every active slot has exactly the blocks its length needs, rounded up. -/
def Tight (cfg : Config) (seqLens : Nat → Nat) (s : State) : Prop :=
  ∀ q, q < cfg.maxBatchSize → seqLens q ≠ 0 →
    s.mappedPages q = ⌈(seqLens q : ℚ) / cfg.tokensPerPage⌉₊

/-- What serving a slot can do to the counters: the slot gets at most what it needs, and no other
    one gets anything. -/
theorem mapPagesForCurrStep_le {r : Nat} (seqLen : Nat) (hinv : PageInv cfg reserved s)
    (hr : r < cfg.maxBatchSize) :
    (mapPagesForCurrStep cfg r seqLen s).Ensures
      (fun s' => PageInv cfg reserved s' ∧
        s'.mappedPages r ≤ max (s.mappedPages r) (cfg.tokensToPages seqLen) ∧
        ∀ q, q ≠ r → s'.mappedPages q ≤ s.mappedPages q)
      (fun _ _ => True) := by
  have hstay : PageInv cfg reserved s ∧
      s.mappedPages r ≤ max (s.mappedPages r) (cfg.tokensToPages seqLen) ∧
      ∀ q, q ≠ r → s.mappedPages q ≤ s.mappedPages q :=
    ⟨hinv, Nat.le_max_left .., fun _ _ => le_rfl⟩
  unfold mapPagesForCurrStep
  split
  · exact hstay
  dsimp only
  split
  · exact hstay
  case isFalse hgrow =>
    generalize hn : cfg.tokensToPages seqLen - s.mappedPages r = n
    -- reclaiming only takes
    obtain ⟨s₁, hs₁, hinv₁, hle₁⟩ : ∃ s₁,
        (if kvblocksAvailable cfg s n then s else reclaimKvblocksOnDemand cfg n s) = s₁ ∧
        PageInv cfg reserved s₁ ∧ ∀ q, s₁.mappedPages q ≤ s.mappedPages q := by
      split_ifs
      · exact ⟨s, rfl, hinv, fun _ => le_rfl⟩
      · obtain ⟨f, hre, hmono, -⟩ := reclaimKvblocksOnDemand_spec n hinv
        exact ⟨_, rfl, hre.inv, fun q => hre.mapped ▸ hmono q⟩
    rw [hs₁]
    have hspec := growKvcachePhys_spec hr n true hinv₁
    cases hrun : growKvcachePhys cfg r n true s₁ with
    | throw err s₂ => trivial
    | done s₂ =>
      rw [hrun] at hspec
      obtain ⟨m, hre, -, hm⟩ := hspec
      refine ⟨hre.inv.setReqSeqLength r seqLen, ?_, fun q hq => ?_⟩
      · show s₂.mappedPages r ≤ _
        rw [hre.mapped, Function.update_self]
        have hself := hle₁ r
        omega
      · show s₂.mappedPages q ≤ _
        rw [hre.mapped, Function.update_of_ne hq]
        exact hle₁ q

/-- **Step lemma**: serving a slot keeps every active slot free of excess. -/
theorem stepSyncSlot_noExcess {seqLens : Nat → Nat} (eagerReclaim : Bool) {r : Nat}
    (hr : r < cfg.maxBatchSize) (hinv : PageInv cfg reserved s) (h : NoExcess cfg seqLens s) :
    (stepSyncSlot cfg seqLens eagerReclaim r s).Ensures
      (fun s' => PageInv cfg reserved s' ∧ NoExcess cfg seqLens s') (fun _ _ => True) := by
  have hset := hinv.setReqSeqLength r (seqLens r)
  unfold stepSyncSlot
  dsimp only
  split
  · have hre := releaseKvcachePagesAll_spec hr hset
    refine ⟨hre.inv, fun q hq hactive => ?_⟩
    rw [hre.mapped]
    by_cases hqr : q = r
    · rw [hqr, Function.update_self]
      exact Nat.zero_le _
    · rw [Function.update_of_ne hqr]
      exact h q hq hactive
  · refine (mapPagesForCurrStep_le (seqLens r) hset hr).mono fun s' hs' => ?_
    obtain ⟨hinv', hself, hothers⟩ := hs'
    refine ⟨hinv', fun q hq hactive => ?_⟩
    by_cases hqr : q = r
    · subst hqr
      exact hself.trans (max_le (h q hq hactive) le_rfl)
    · exact (hothers q hqr).trans (h q hq hactive)

theorem stepSync_noExcess {seqLens : Nat → Nat} (eagerReclaim : Bool)
    (hinv : PageInv cfg reserved s) (h : NoExcess cfg seqLens s) :
    (stepSync cfg seqLens eagerReclaim s).Ensures (NoExcess cfg seqLens) (fun _ _ => True) := by
  have hloop : (stepSync cfg seqLens eagerReclaim s).Ensures
      (fun s' => PageInv cfg reserved s' ∧ NoExcess cfg seqLens s') (fun _ _ => True) :=
    Outcome.Ensures.forEach_mem (fun _ hr _ hs =>
      stepSyncSlot_noExcess eagerReclaim (List.mem_range.mp hr) hs.1 hs.2) ⟨hinv, h⟩
  exact hloop.mono fun _ hs => hs.2

/-- **A step leaves tight slots** if none had an excess before. -/
theorem stepSync_tight {seqLens : Nat → Nat} (eagerReclaim : Bool) (hfits : cfg.FitsAddressSpace)
    (hlens : ∀ r, r < cfg.maxBatchSize → seqLens r ≤ cfg.maxContextLength)
    (hinv : PageInv cfg reserved s) (h : NoExcess cfg seqLens s)
    (hrun : stepSync cfg seqLens eagerReclaim s = .done s') : Tight cfg seqLens s' := by
  have hlower := stepSync_covers eagerReclaim hfits hlens hinv
  have hupper := stepSync_noExcess eagerReclaim hinv h
  rw [hrun] at hlower hupper
  intro q hq hactive
  rw [← hfits.toNoOverflow.tokensToPages_eq_ceil (hlens q hq)]
  exact le_antisymm (hupper q hq hactive) (hlower.covered q hq List.not_mem_nil)

/-! ## Without reclaim an excess stays -/

/-- Blocks that the slots of a list still get in a step. -/
def growthOf (cfg : Config) (seqLens : Nat → Nat) (s : State) (rs : List Nat) : Nat :=
  (rs.map fun q => cfg.tokensToPages (seqLens q) - s.mappedPages q).sum

/-- A step that finds all its blocks in the pool: no active slot has lost any so far. -/
structure Unreclaimed (cfg : Config) (reserved : List Page) (seqLens : Nat → Nat) (s₀ : State)
    (rest : List Nat) (s : State) : Prop where
  slots : ∀ q ∈ rest, q < cfg.maxBatchSize
  nodup : rest.Nodup
  inv : PageInv cfg reserved s
  kept : ∀ q, seqLens q ≠ 0 → s₀.mappedPages q ≤ s.mappedPages q
  pool : growthOf cfg seqLens s rest + totalMapped cfg s.mappedPages ≤ totalKvblocks cfg reserved

/-- What the slots of a list get does not depend on other slots. -/
theorem growthOf_congr {seqLens : Nat → Nat} {rs : List Nat}
    (h : ∀ q ∈ rs, s'.mappedPages q = s.mappedPages q) :
    growthOf cfg seqLens s' rs = growthOf cfg seqLens s rs := by
  refine congrArg List.sum (List.map_congr_left fun q hq => ?_)
  rw [h q hq]

/-- **Step lemma** of such a step. -/
theorem Unreclaimed.step {seqLens : Nat → Nat} {s₀ : State} {r : Nat} {rest : List Nat}
    (eagerReclaim : Bool) (h : Unreclaimed cfg reserved seqLens s₀ (r :: rest) s) :
    (stepSyncSlot cfg seqLens eagerReclaim r s).Ensures
      (Unreclaimed cfg reserved seqLens s₀ rest) (fun _ _ => True) := by
  have hr := h.slots r List.mem_cons_self
  have hslots : ∀ q ∈ rest, q < cfg.maxBatchSize :=
    fun q hq => h.slots q (List.mem_cons_of_mem _ hq)
  obtain ⟨hnot, hnodup⟩ := List.nodup_cons.mp h.nodup
  have hset := h.inv.setReqSeqLength r (seqLens r)
  have hpool : cfg.tokensToPages (seqLens r) - s.mappedPages r + growthOf cfg seqLens s rest +
      totalMapped cfg s.mappedPages ≤ totalKvblocks cfg reserved := by
    have hsum := h.pool
    rwa [growthOf, List.map_cons, List.sum_cons] at hsum
  -- a slot whose counter becomes `m` with at most the blocks it still gets
  have hserved : ∀ s' m, Remapped cfg reserved (s.setReqSeqLength r (seqLens r)) s'
      (Function.update s.mappedPages r m) → (seqLens r ≠ 0 → s.mappedPages r ≤ m) →
      m ≤ s.mappedPages r + (cfg.tokensToPages (seqLens r) - s.mappedPages r) →
      Unreclaimed cfg reserved seqLens s₀ rest s' := by
    intro s' m hre hlow hhigh
    refine ⟨hslots, hnodup, hre.inv, fun q hq => ?_, ?_⟩
    · rw [hre.mapped]
      by_cases hqr : q = r
      · subst hqr
        rw [Function.update_self]
        exact (h.kept q hq).trans (hlow hq)
      · rw [Function.update_of_ne hqr]
        exact h.kept q hq
    · have hsum := totalMapped_update cfg s.mappedPages hr m
      have hsame : growthOf cfg seqLens s' rest = growthOf cfg seqLens s rest := by
        refine growthOf_congr fun q hq => ?_
        rw [hre.mapped, Function.update_of_ne (ne_of_mem_of_not_mem hq hnot)]
      rw [hsame, hre.mapped]
      omega
  have hstay : Unreclaimed cfg reserved seqLens s₀ rest (s.setReqSeqLength r (seqLens r)) := by
    refine hserved _ (s.mappedPages r) ?_ (fun _ => le_rfl) (Nat.le_add_right ..)
    rw [Function.update_eq_self]
    exact .refl hset
  unfold stepSyncSlot
  dsimp only
  split
  case isTrue hrelease =>
    simp only [Bool.and_eq_true, beq_iff_eq] at hrelease
    exact hserved _ 0 (releaseKvcachePagesAll_spec hr hset) (fun hne => absurd hrelease.2.1 hne)
      (Nat.zero_le _)
  case isFalse =>
    unfold mapPagesForCurrStep
    split
    · exact hstay
    dsimp only
    split
    · exact hstay
    -- the blocks are in the pool, so nothing is reclaimed
    have havail : kvblocksAvailable cfg (s.setReqSeqLength r (seqLens r))
        (cfg.tokensToPages (seqLens r) - (s.setReqSeqLength r (seqLens r)).mappedPages r) =
          true := by
      rw [hset.kvblocksAvailable_iff]
      show cfg.tokensToPages (seqLens r) - s.mappedPages r + totalMapped cfg s.mappedPages ≤ _
      omega
    rw [if_pos havail]
    have hspec := growKvcachePhys_spec hr (cfg.tokensToPages (seqLens r) -
      (s.setReqSeqLength r (seqLens r)).mappedPages r) true hset
    cases hrun : growKvcachePhys cfg r (cfg.tokensToPages (seqLens r) -
        (s.setReqSeqLength r (seqLens r)).mappedPages r) true
          (s.setReqSeqLength r (seqLens r)) with
    | throw err s₂ => trivial
    | done s₂ =>
      rw [hrun] at hspec
      obtain ⟨m, hre, hlow, hhigh⟩ := hspec
      refine hserved _ m ⟨hre.inv.setReqSeqLength r _, hre.mapped, ?_, hre.deferred⟩
        (fun _ => hlow) hhigh
      show Function.update s₂.currSeqLengths r (seqLens r) = _
      rw [hre.lengths, State.setReqSeqLength]
      exact Function.update_idem ..

/-- **Without reclaim an excess stays**: if the pool has the blocks that a step adds, then the step
    leaves tight slots only if no slot had an excess. -/
theorem noExcess_of_stepSync_tight {seqLens : Nat → Nat} (eagerReclaim : Bool)
    (hfits : cfg.FitsAddressSpace)
    (hlens : ∀ r, r < cfg.maxBatchSize → seqLens r ≤ cfg.maxContextLength)
    (hinv : PageInv cfg reserved s)
    (hpool : kvblocksAvailable cfg s (growthOf cfg seqLens s (List.range cfg.maxBatchSize)) = true)
    (hrun : stepSync cfg seqLens eagerReclaim s = .done s') (htight : Tight cfg seqLens s') :
    NoExcess cfg seqLens s := by
  have hstart : Unreclaimed cfg reserved seqLens s (List.range cfg.maxBatchSize) s :=
    ⟨by simp, List.nodup_range, hinv, fun _ _ => le_rfl, (hinv.kvblocksAvailable_iff _).mp hpool⟩
  have hend : (stepSync cfg seqLens eagerReclaim s).Ensures
      (Unreclaimed cfg reserved seqLens s []) (fun _ _ => True) :=
    Outcome.Ensures.forEach (fun _ _ _ h => h.step eagerReclaim) _ _ hstart
  rw [hrun] at hend
  intro q hq hactive
  rw [hfits.toNoOverflow.tokensToPages_eq_ceil (hlens q hq), ← htight q hq hactive]
  exact hend.kept q hactive

end VAttention.Allocator
