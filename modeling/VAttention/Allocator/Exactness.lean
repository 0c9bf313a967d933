import VAttention.Allocator.Demand
import VAttention.Allocator.Layout

/-!
# When a step runs out of memory

A step succeeds exactly when the blocks that all slots need exist, and then every slot has
them.  The growth of a slot ends silently at the end of its window, so this needs windows that
are as large as `init_buffer_sizes` means them to be: all of them together must fit into 64 bits
of address space.

## Layers

- **Layer A**: the address space.
- **Layer B**: operations that take from no slot a block that it needs.
- **Layer C**: the loops of the two step functions.
- **Layer D**: exactness in every reachable state.
-/

namespace VAttention.Allocator

open VAttention.Lib

variable {cfg : Config} {reserved : List Page} {s s' : State}

/-! ## Layer A: the address space -/

/-- The windows of all slots fit into 64 bits of address space (`virt_buff_size`). -/
structure Config.FitsAddressSpace (cfg : Config) : Prop extends cfg.NoOverflow where
  buffer : cfg.maxBatchSize * (cfg.maxPagesPerReq * cfg.pageSize) < u64Size

/-- The assertions of `init_kvcache` are enough; the component entry point has none. -/
theorem Config.fitsAddressSpace_of_asserts (hbatch : cfg.maxBatchSize < 1000)
    (hcontext : cfg.maxContextLength < 1000000) (hpage : cfg.pageSize ∈ supportedPageSizes)
    (htokens : cfg.tokensPerPage ≤ cfg.pageSize) : cfg.FitsAddressSpace := by
  have hsize : cfg.pageSize ≤ 2097152 := by
    simp only [supportedPageSizes, kilobyte, List.mem_cons, List.not_mem_nil, or_false] at hpage
    omega
  have hu64 : u64Size = 18446744073709551616 := by rfl
  have hpages : cfg.maxPagesPerReq ≤ 3097152 := by
    apply (Nat.div_le_self _ _).trans
    apply (Nat.mod_le _ _).trans
    omega
  have hwindow : cfg.maxPagesPerReq * cfg.pageSize ≤ 3097152 * 2097152 :=
    Nat.mul_le_mul hpages hsize
  have hbuffer : cfg.maxBatchSize * (cfg.maxPagesPerReq * cfg.pageSize) ≤
      1000 * (3097152 * 2097152) := Nat.mul_le_mul hbatch.le hwindow
  exact ⟨⟨by omega, by omega⟩, by omega⟩

theorem Config.NoOverflow.tokensToPages_mono (h : cfg.NoOverflow) {m n : Nat} (hmn : m ≤ n)
    (hn : n ≤ cfg.maxContextLength) : cfg.tokensToPages m ≤ cfg.tokensToPages n := by
  have hpos := cfg.tokensPerPage_pos
  have hctx := h.context
  have heq : ∀ k, k ≤ cfg.maxContextLength →
      cfg.tokensToPages k = (k + cfg.tokensPerPage - 1) / cfg.tokensPerPage := by
    intro k hk
    rw [Config.tokensToPages, Nat.mod_eq_of_lt (by omega)]
  rw [heq m (hmn.trans hn), heq n hn]
  apply Nat.div_le_div_right
  omega

/-- Every block up to the page limit has a valid offset. -/
theorem Config.FitsAddressSpace.isValidOffset (h : cfg.FitsAddressSpace) {r m : Nat}
    (hr : r < cfg.maxBatchSize) (hm : m < cfg.maxPagesPerReq) :
    cfg.isValidOffset r (cfg.blockOffset r m) = true := by
  have hwindow := h.virtBuffSizePerReq_eq
  have hbuffer := h.buffer
  rw [← hwindow] at hbuffer
  -- the window ends inside the buffer
  have hend : (r + 1) * cfg.virtBuffSizePerReq < u64Size :=
    (Nat.mul_le_mul_right _ hr).trans_lt hbuffer
  have hblock : m * cfg.pageSize < cfg.virtBuffSizePerReq := by
    rw [hwindow]
    exact Nat.mul_lt_mul_of_pos_right hm cfg.pageSize_pos
  have hsucc : (r + 1) * cfg.virtBuffSizePerReq =
      r * cfg.virtBuffSizePerReq + cfg.virtBuffSizePerReq := Nat.succ_mul ..
  rw [Config.isValidOffset, Config.blockOffset, decide_eq_true_eq, Nat.mod_eq_of_lt hend,
    Nat.mod_eq_of_lt (by omega)]
  omega

/-! ## Layer B: needed blocks stay -/

/-- `s'` comes from `s` by mapping and unmapping blocks, and no slot has lost a block that it
    needs for its recorded length. -/
structure KeepsNeeded (cfg : Config) (reserved : List Page) (s s' : State) : Prop where
  inv : PageInv cfg reserved s'
  lengths : s'.currSeqLengths = s.currSeqLengths
  needed : ∀ q, min (s.mappedPages q) (cfg.tokensToPages (s.currSeqLengths q)) ≤ s'.mappedPages q

theorem KeepsNeeded.refl (hinv : PageInv cfg reserved s) : KeepsNeeded cfg reserved s s :=
  ⟨hinv, rfl, fun _ => Nat.min_le_left ..⟩

theorem KeepsNeeded.trans {s₁ : State} (h₁ : KeepsNeeded cfg reserved s s₁)
    (h₂ : KeepsNeeded cfg reserved s₁ s') : KeepsNeeded cfg reserved s s' := by
  refine ⟨h₂.inv, h₂.lengths.trans h₁.lengths, fun q => ?_⟩
  -- `needed` is about the same lengths in both steps
  have hone := h₁.needed q
  have htwo := h₂.needed q
  rw [h₁.lengths] at htwo
  omega

theorem reclaimKvblocksOnDemand_keepsNeeded (n : Nat) (hinv : PageInv cfg reserved s) :
    KeepsNeeded cfg reserved s (reclaimKvblocksOnDemand cfg n s) := by
  obtain ⟨f, hre, -, hval, -⟩ := reclaimKvblocksOnDemand_spec n hinv
  refine ⟨hre.inv, hre.lengths, fun q => ?_⟩
  rw [hre.mapped]
  rcases hval q with h | h
  · rw [h]
    exact Nat.min_le_left ..
  · rw [h]
    exact Nat.min_le_right ..

/-- Reclaiming if the pool is too small. -/
theorem reclaimIfNeeded_keepsNeeded (n : Nat) (hinv : PageInv cfg reserved s) :
    KeepsNeeded cfg reserved s
      (if kvblocksAvailable cfg s n then s else reclaimKvblocksOnDemand cfg n s) := by
  split
  · exact .refl hinv
  · exact reclaimKvblocksOnDemand_keepsNeeded n hinv

/-- Changing one counter takes nothing that is needed if its slot keeps what it needs. -/
theorem Remapped.keepsNeeded {r m : Nat}
    (h : Remapped cfg reserved s s' (Function.update s.mappedPages r m))
    (hm : min (s.mappedPages r) (cfg.tokensToPages (s.currSeqLengths r)) ≤ m) :
    KeepsNeeded cfg reserved s s' := by
  refine ⟨h.inv, h.lengths, fun q => ?_⟩
  rw [h.mapped]
  by_cases hq : q = r
  · rw [hq, Function.update_self]
    exact hm
  · rw [Function.update_of_ne hq]
    exact Nat.min_le_left ..

/-- A synchronous growth that returns is complete, or the slot has all the blocks it can get. -/
theorem growKvcachePhys_reaches {r : Nat} (n : Nat) (hfits : cfg.FitsAddressSpace)
    (hinv : PageInv cfg reserved s) (hr : r < cfg.maxBatchSize) :
    (growKvcachePhys cfg r n true s).Ensures
      (fun s' => KeepsNeeded cfg reserved s s' ∧
        min (s.mappedPages r + n) cfg.maxPagesPerReq ≤ s'.mappedPages r)
      (fun _ _ => True) := by
  unfold growKvcachePhys
  split_ifs with hzero hfull hsync
  · rw [hzero]
    exact ⟨.refl hinv, Nat.min_le_left ..⟩
  · cases hsync
  · trivial
  have hpool : n * cfg.pagesPerKvblock ≤ s.pages.length :=
    kvblocksAvailable_pool (by simpa using hfull)
  -- the loop stops early only at the end of the window
  obtain ⟨s', m, hrun, hre, hlo, hhi, hend⟩ := growLoop_spec hr n hinv hpool
  rw [hrun]
  refine ⟨hre.keepsNeeded ((Nat.min_le_left ..).trans hlo), ?_⟩
  rw [hre.mapped, Function.update_self]
  rcases hend with h | h
  · omega
  · -- an invalid offset is one past the page limit
    by_contra hlt
    rw [hfits.isValidOffset hr (by omega)] at h
    cases h

/-- **A slot gets the blocks it needs**, and no other slot loses one that it needs. -/
theorem mapPagesForCurrStep_covers {r : Nat} (hfits : cfg.FitsAddressSpace)
    (hinv : PageInv cfg reserved s) (hr : r < cfg.maxBatchSize)
    (hlen : s.currSeqLengths r ≤ cfg.maxContextLength) :
    (mapPagesForCurrStep cfg r (s.currSeqLengths r) s).Ensures
      (fun s' => KeepsNeeded cfg reserved s s' ∧
        cfg.tokensToPages (s.currSeqLengths r) ≤ s'.mappedPages r)
      (fun _ _ => True) := by
  unfold mapPagesForCurrStep
  split_ifs with hzero
  · refine ⟨.refl hinv, ?_⟩
    rw [hzero, cfg.tokensToPages_zero]
    exact Nat.zero_le _
  dsimp only
  split
  case isTrue henough => exact ⟨.refl hinv, henough⟩
  case isFalse hgrow =>
    -- the length is within the context, so the page limit does not cut it
    have hmax : cfg.tokensToPages (s.currSeqLengths r) ≤ cfg.maxPagesPerReq :=
      hfits.toNoOverflow.tokensToPages_mono hlen le_rfl
    have hkeep := reclaimIfNeeded_keepsNeeded
      (cfg.tokensToPages (s.currSeqLengths r) - s.mappedPages r) hinv
    -- the slot needs all its blocks, so reclaiming has taken none from it
    have hself := hkeep.needed r
    apply (growKvcachePhys_reaches _ hfits hkeep.inv hr).andThen
    intro s' ⟨hkeep', hreach⟩
    constructor
    · have hboth := hkeep.trans hkeep'
      refine ⟨hboth.inv.setReqSeqLength r _, ?_, hboth.needed⟩
      rw [State.setReqSeqLength]
      dsimp only
      rw [hboth.lengths, Function.update_eq_self]
    · change _ ≤ s'.mappedPages r
      omega

/-! ## Layer C: the loops over the slots -/

/-- The slots outside `rest` have their new lengths and the blocks for them. -/
structure StepProgress (cfg : Config) (reserved : List Page) (seqLens : Nat → Nat)
    (rest : List Nat) (s : State) : Prop where
  inv : PageInv cfg reserved s
  lengths : ∀ q, q < cfg.maxBatchSize → q ∉ rest → s.currSeqLengths q = seqLens q
  covered : ∀ q, q < cfg.maxBatchSize → q ∉ rest → cfg.tokensToPages (seqLens q) ≤ s.mappedPages q

/-- **Step lemma**: a slot is served after its new length has been recorded. -/
theorem StepProgress.serve {seqLens : Nat → Nat} {r : Nat} {rest : List Nat}
    (h : StepProgress cfg reserved seqLens (r :: rest) s)
    (hset : s.currSeqLengths r = seqLens r) (hkeep : KeepsNeeded cfg reserved s s')
    (hcovers : cfg.tokensToPages (seqLens r) ≤ s'.mappedPages r) :
    StepProgress cfg reserved seqLens rest s' := by
  refine ⟨hkeep.inv, fun q hq hrest => ?_, fun q hq hrest => ?_⟩
  · rw [hkeep.lengths]
    by_cases hqr : q = r
    · rw [hqr, hset]
    · exact h.lengths q hq (by simp [hqr, hrest])
  · by_cases hqr : q = r
    · rw [hqr]
      exact hcovers
    -- a slot that was served before had all it needs, and keeps it
    · have hlens := h.lengths q hq (by simp [hqr, hrest])
      have hcov := h.covered q hq (by simp [hqr, hrest])
      have hneed := hkeep.needed q
      rw [hlens, min_eq_right hcov] at hneed
      exact hneed

/-- Recording the new length of the slot that is served next. -/
theorem StepProgress.setReqSeqLength {seqLens : Nat → Nat} {r : Nat} {rest : List Nat}
    (h : StepProgress cfg reserved seqLens (r :: rest) s) :
    StepProgress cfg reserved seqLens (r :: rest) (s.setReqSeqLength r (seqLens r)) := by
  refine ⟨h.inv.setReqSeqLength r _, fun q hq hrest => ?_, h.covered⟩
  have hqr : q ≠ r := by
    rintro rfl
    exact hrest List.mem_cons_self
  exact (Function.update_of_ne hqr ..).trans (h.lengths q hq hrest)

theorem stepSyncSlot_progress {seqLens : Nat → Nat} (eagerReclaim : Bool) {r : Nat}
    {rest : List Nat} (hfits : cfg.FitsAddressSpace) (hr : r < cfg.maxBatchSize)
    (hlen : seqLens r ≤ cfg.maxContextLength)
    (h : StepProgress cfg reserved seqLens (r :: rest) s) :
    (stepSyncSlot cfg seqLens eagerReclaim r s).Ensures (StepProgress cfg reserved seqLens rest)
      (fun _ _ => True) := by
  have hset := h.setReqSeqLength
  have hself : (s.setReqSeqLength r (seqLens r)).currSeqLengths r = seqLens r :=
    Function.update_self ..
  unfold stepSyncSlot
  dsimp only
  split
  case isTrue hrelease =>
    -- the slot is inactive and needs nothing
    simp only [Bool.and_eq_true, beq_iff_eq] at hrelease
    have hneed : cfg.tokensToPages (seqLens r) = 0 := by
      rw [hrelease.2.1, cfg.tokensToPages_zero]
    have hkeep := (releaseKvcachePagesAll_spec hr hset.inv).keepsNeeded (by
      rw [hself, hneed, Nat.min_zero])
    exact hset.serve hself hkeep (hneed ▸ Nat.zero_le _)
  case isFalse =>
    have hmap := mapPagesForCurrStep_covers hfits hset.inv hr (by rw [hself]; exact hlen)
    rw [hself] at hmap
    exact hmap.mono fun s' hs' => hset.serve hself hs'.1 hs'.2

/-- **Run lemma**: a loop over the slots that serves each of them and keeps `Q` has served all
    of them when it returns. -/
theorem forEach_progress {seqLens : Nat → Nat} {body : Nat → State → Result} {Q : State → Prop}
    (hbody : ∀ r rest s, r < cfg.maxBatchSize → Q s →
      StepProgress cfg reserved seqLens (r :: rest) s →
      (body r s).Ensures (fun s' => Q s' ∧ StepProgress cfg reserved seqLens rest s')
        (fun _ _ => True))
    (hinv : PageInv cfg reserved s) (hQ : Q s) :
    (Outcome.forEach body (List.range cfg.maxBatchSize) s).Ensures
      (StepProgress cfg reserved seqLens []) (fun _ _ => True) := by
  let I (rest : List Nat) (s : State) : Prop :=
    (∀ r ∈ rest, r < cfg.maxBatchSize) ∧ Q s ∧ StepProgress cfg reserved seqLens rest s
  have hstep : ∀ r rest s, I (r :: rest) s → (body r s).Ensures (I rest) (fun _ _ => True) := by
    intro r rest s ⟨hmem, hQs, hs⟩
    apply (hbody r rest s (hmem r List.mem_cons_self) hQs hs).mono
    exact fun s' hs' => ⟨fun q hq => hmem q (List.mem_cons_of_mem _ hq), hs'⟩
  have hstart : I (List.range cfg.maxBatchSize) s := by
    -- before the loop every slot is still to be served
    refine ⟨by simp, hQ, hinv, fun q hq hrest => ?_, fun q hq hrest => ?_⟩
    · exact absurd (List.mem_range.mpr hq) hrest
    · exact absurd (List.mem_range.mpr hq) hrest
  apply (Outcome.Ensures.forEach hstep _ s hstart).mono
  exact fun s' hs' => hs'.2.2

theorem stepSync_covers {seqLens : Nat → Nat} (eagerReclaim : Bool) (hfits : cfg.FitsAddressSpace)
    (hlens : ∀ r, r < cfg.maxBatchSize → seqLens r ≤ cfg.maxContextLength)
    (hinv : PageInv cfg reserved s) :
    (stepSync cfg seqLens eagerReclaim s).Ensures (StepProgress cfg reserved seqLens [])
      (fun _ _ => True) := by
  apply forEach_progress (Q := fun _ => True) ?_ hinv trivial
  intro r rest s hr _ hs
  apply (stepSyncSlot_progress eagerReclaim hfits hr (hlens r hr) hs).mono
  exact fun s' hs' => ⟨trivial, hs'⟩

theorem stepAsync_covers {seqLens : Nat → Nat} (hfits : cfg.FitsAddressSpace)
    (hlens : ∀ r, r < cfg.maxBatchSize → seqLens r ≤ cfg.maxContextLength)
    (hinv : PageInv cfg reserved s) :
    (stepAsync cfg seqLens s).Ensures (StepProgress cfg reserved seqLens [])
      (fun _ _ => True) := by
  -- all lengths have been recorded before the loop starts
  have hset : PageInv cfg reserved { s with currSeqLengths := seqLens } := hinv.congr rfl rfl rfl
  apply forEach_progress (Q := fun s => s.currSeqLengths = seqLens) ?_ hset rfl
  intro r rest s hr hQ hs
  have hmap := mapPagesForCurrStep_covers hfits hs.inv hr (by rw [hQ]; exact hlens r hr)
  apply hmap.mono
  intro s' ⟨hkeep, hcovers⟩
  rw [hQ] at hcovers
  exact ⟨hkeep.lengths.trans hQ, hs.serve (congrFun hQ r) hkeep hcovers⟩

theorem forEach_mapPagesForCurrStep_done (rs : List Nat) (hrs : ∀ r ∈ rs, r < cfg.maxBatchSize)
    (hinv : PageInv cfg reserved s)
    (hfits : totalPages cfg s.currSeqLengths ≤ totalKvblocks cfg reserved) :
    ∃ s', Outcome.forEach (fun r s => mapPagesForCurrStep cfg r (s.currSeqLengths r) s) rs s =
      .done s' := by
  induction rs generalizing s with
  | nil => exact ⟨s, rfl⟩
  | cons r rs ih =>
    obtain ⟨s₁, hone, hinv₁, hlens⟩ :=
      mapPagesForCurrStep_done hinv (hrs r List.mem_cons_self) hfits
    rw [← hlens] at hfits
    obtain ⟨s', hrest⟩ := ih (fun q hq => hrs q (List.mem_cons_of_mem _ hq)) hinv₁ hfits
    refine ⟨s', ?_⟩
    rw [Outcome.forEach_cons, hone, Outcome.andThen_done, hrest]

theorem stepAsync_done {seqLens : Nat → Nat} (hinv : PageInv cfg reserved s)
    (hfits : totalPages cfg seqLens ≤ totalKvblocks cfg reserved) :
    ∃ s', stepAsync cfg seqLens s = .done s' :=
  forEach_mapPagesForCurrStep_done _ (by simp) (hinv.congr rfl rfl rfl) hfits

/-! ## Layer D: exactness -/

/-- A step throws the out-of-memory exception exactly when the slots need more blocks than there
    are; when it returns, every slot has its new length and the blocks for it. -/
def StepExact (cfg : Config) (reserved : List Page) (seqLens : Nat → Nat) (run : Result) : Prop :=
  ((∃ s', run = .throw .oomOnDemand s') ↔
      totalKvblocks cfg reserved < totalPages cfg seqLens) ∧
    ∀ s', run = .done s' → ∀ r, r < cfg.maxBatchSize →
      cfg.tokensToPages (seqLens r) ≤ s'.mappedPages r ∧ s'.currSeqLengths r = seqLens r

/-- Served slots hold no more blocks than there are. -/
theorem StepProgress.totalPages_le {seqLens : Nat → Nat}
    (h : StepProgress cfg reserved seqLens [] s) :
    totalPages cfg seqLens ≤ totalKvblocks cfg reserved := by
  have hle : totalPages cfg seqLens ≤ totalMapped cfg s.mappedPages :=
    totalMapped_mono fun q hq => h.covered q hq List.not_mem_nil
  have hpool := h.inv.pool_add_mapped
  omega

theorem stepExact_of_covers {seqLens : Nat → Nat} {run : Result} (hsafe : Safe cfg reserved run)
    (hcovers : run.Ensures (StepProgress cfg reserved seqLens []) (fun _ _ => True))
    (hdone : totalPages cfg seqLens ≤ totalKvblocks cfg reserved → ∃ s', run = .done s') :
    StepExact cfg reserved seqLens run := by
  cases run with
  -- a return leaves every slot served, so the blocks were there
  | done s =>
    refine ⟨⟨?_, ?_⟩, ?_⟩
    · rintro ⟨s', h⟩
      cases h
    · intro hlt
      have hle := StepProgress.totalPages_le hcovers
      omega
    · rintro s' ⟨⟩ r hr
      exact ⟨hcovers.covered r hr List.not_mem_nil, hcovers.lengths r hr List.not_mem_nil⟩
  -- with enough blocks the step returns, so an exception means too few
  | throw err s =>
    obtain ⟨rfl, -⟩ := hsafe
    refine ⟨⟨fun _ => ?_, fun _ => ⟨s, rfl⟩⟩, ?_⟩
    · by_contra hle
      obtain ⟨s', h⟩ := hdone (by omega)
      cases h
    · rintro s' ⟨⟩

/-- **Exactness of a step**: if the windows fit into the address space, then in every reachable
    state and for every vector of lengths that have not shrunk, both step functions run out of
    memory exactly when the slots need more blocks than were reserved, and otherwise leave every
    slot with the blocks it needs. -/
theorem step_exact (cfg : Config) (hfits : cfg.FitsAddressSpace) (newPage : Nat → Page)
    (freeMemory : Nat) (calls : List Call) (seqLens : Nat → Nat) (eagerReclaim : Bool) :
    let s₀ := reservePhysicalPages cfg newPage freeMemory State.init
    let s := runCalls cfg calls s₀
    (∀ r, r < cfg.maxBatchSize →
      s.currSeqLengths r ≤ seqLens r ∧ seqLens r ≤ cfg.maxContextLength) →
    StepExact cfg s₀.pages seqLens (stepSync cfg seqLens eagerReclaim s) ∧
      StepExact cfg s₀.pages seqLens (stepAsync cfg seqLens s) := by
  intro s₀ s hlens
  have hinv : PageInv cfg s₀.pages s := runCalls_inv calls (reservePhysicalPages_inv ..)
  have hmax := fun r hr => (hlens r hr).2
  -- the lengths only grow, so no slot ever needs more than in the end
  have hpeak : peakPages cfg s.currSeqLengths seqLens = totalPages cfg seqLens :=
    peakPages_eq_totalPages fun r hr =>
      hfits.toNoOverflow.tokensToPages_mono (hlens r hr).1 (hmax r hr)
  constructor
  · apply stepExact_of_covers (stepSync_safe seqLens eagerReclaim hinv)
      (stepSync_covers eagerReclaim hfits hmax hinv)
    intro hle
    obtain ⟨s', hrun, -⟩ := stepSync_done seqLens eagerReclaim hinv (by rw [hpeak]; exact hle)
    exact ⟨s', hrun⟩
  · exact stepExact_of_covers (stepAsync_safe seqLens hinv) (stepAsync_covers hfits hmax hinv)
      (stepAsync_done hinv)

/-- Two slots of `denseSetup` over two blocks: the step to one page each is exact. -/
theorem dense_step_exact :
    let s₀ := reservePhysicalPages denseSetup.cfg id 262144 State.init
    StepExact denseSetup.cfg s₀.pages (fun _ => 512)
      (stepSync denseSetup.cfg (fun _ => 512) true (runCalls denseSetup.cfg [] s₀)) :=
  (step_exact denseSetup.cfg (Config.fitsAddressSpace_of_asserts (by decide) (by decide) (by decide)
    (by decide)) id 262144 [] (fun _ => 512) true (by decide)).1

/-- An MLA cache with one token to a page and a context of `2 ^ 47 + 1` tokens: the windows of
    its two slots make up `2 ^ 64 + 2 ^ 17` bytes, of which the extension reserves `2 ^ 17`. -/
def hugeContextSpec : VAttentionInitSpec where
  cacheSpec := {
    architecture := .mla
    megacache := false
    pageSize := 65536
    tokensPerPage := 1
    cachedTokenBytesPerLayer := 32772
    cachedTokenBytesLocal := 32772
    pageBufferTokenBytes := 32772
    dtypeSize := 2
    numLayers := 1
    numKvHeads := 1
    headSize := 64
    cacheComponents := [⟨"kv_latent", 8193⟩, ⟨"k_rope", 8193⟩]
    mlaKvLoraRank := some 8193
    mlaQkRopeHeadDim := some 8193 }
  maxBatchSize := 2
  maxContextLength := 2 ^ 47 + 1
  dtype := ⟨"float16", 2, Nat.two_pos⟩

/-- Configuration of `hugeContextSpec`. -/
def hugeContextSetup : Setup where
  cfg := {
    numLayers := 1
    maxBatchSize := 2
    maxContextLength := 2 ^ 47 + 1
    pageSize := 65536
    tokensPerPage := 1
    megacacheEnabled := false
    numLayers_pos := Nat.one_pos
    pageSize_dvd := smallPage_dvd_u64Size
    tokensPerPage_pos := Nat.one_pos }
  tensors := [⟨[2, 2 ^ 47 + 1, 8193], 2, 131072⟩, ⟨[2, 2 ^ 47 + 1, 8193], 2, 131072⟩]

/-- The first step with one token in each slot returns, with both blocks reserved, and leaves the
    second slot without a block. -/
theorem hugeContext_step_not_exact :
    let s₀ := reservePhysicalPages hugeContextSetup.cfg id 262144 State.init
    hugeContextSpec.initialise = .ok hugeContextSetup ∧
      (∀ r, r < 2 → s₀.currSeqLengths r ≤ 1 ∧ 1 ≤ hugeContextSetup.cfg.maxContextLength) ∧
      totalPages hugeContextSetup.cfg (fun _ => 1) ≤ totalKvblocks hugeContextSetup.cfg s₀.pages ∧
      ¬ StepExact hugeContextSetup.cfg s₀.pages (fun _ => 1)
        (stepSync hugeContextSetup.cfg (fun _ => 1) true s₀) := by
  intro s₀
  have hinit : hugeContextSpec.initialise = .ok hugeContextSetup := by rfl
  have hroom : totalPages hugeContextSetup.cfg (fun _ => 1) ≤
      totalKvblocks hugeContextSetup.cfg s₀.pages := by decide
  refine ⟨hinit, by decide, hroom, fun h => ?_⟩
  -- the window of the second slot wraps to its own begin: every offset is invalid
  have hmapped : (stepSync hugeContextSetup.cfg (fun _ => 1) true s₀).state.mappedPages 1 = 0 := by
    decide +kernel
  have hsafe := stepSync_safe (fun _ => 1) true
    (@reservePhysicalPages_inv hugeContextSetup.cfg id 262144)
  cases hrun : stepSync hugeContextSetup.cfg (fun _ => 1) true s₀ with
  | done s' =>
    have hcovers := (h.2 s' hrun 1 (by decide)).1
    rw [hrun, Outcome.state_done] at hmapped
    rw [hmapped] at hcovers
    exact absurd hcovers (by decide)
  | throw err s' =>
    rw [hrun] at hsafe
    obtain ⟨rfl, -⟩ := hsafe
    have hlt := h.1.mp ⟨s', hrun⟩
    omega

end VAttention.Allocator
