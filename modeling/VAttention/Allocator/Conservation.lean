import VAttention.Allocator.BlockMap

/-!
# Conservation of physical pages

The pool and the pagemap together always hold exactly the reserved pages, and the pagemap
has an entry for exactly the blocks the counters say are mapped.  `PageInv` states this
for one state.  Every operation keeps it, exceptions included; on the way each operation
gets one specification lemma that says what it does to the counters.

## Layers

- **Layer A**: the invariant, and what it says about the size of the pool.
- **Layer B**: one block.
- **Layer C**: growth, release and reclaim.
- **Layer D**: the API calls, and runs of them.
-/

namespace VAttention.Allocator

open VAttention.Lib

variable {cfg : Config} {reserved : List Page}

/-- Blocks that are available have their pages in the pool. -/
theorem kvblocksAvailable_pool {s : State} {n : Nat} (h : kvblocksAvailable cfg s n = true) :
    n * cfg.pagesPerKvblock ≤ s.pages.length :=
  (Nat.le_div_iff_mul_le cfg.pagesPerKvblock_pos).mp (of_decide_eq_true h)

/-! ## Layer A: the invariant -/

/-- Pool and pagemap hold the reserved pages, the pagemap has the keys of the mapped
    blocks, and every slot has room for its blocks. -/
structure PageInv (cfg : Config) (reserved : List Page) (s : State) : Prop where
  conserved : (s.pages ++ pagesOf s.pagemap).Perm reserved
  keys : s.pagemap.keys.Perm (mappedKeys cfg s.mappedPages)
  room : ∀ r, r < cfg.maxBatchSize → cfg.SlotRoom r (s.mappedPages r)
  whole : cfg.pagesPerKvblock ∣ reserved.length

/-- Number of mapped blocks over all slots. -/
def totalMapped (cfg : Config) (mapped : Nat → Nat) : Nat :=
  ((List.range cfg.maxBatchSize).map mapped).sum

/-- Number of KV blocks the reserved pages make up. -/
def totalKvblocks (cfg : Config) (reserved : List Page) : Nat :=
  reserved.length / cfg.pagesPerKvblock

theorem totalMapped_update (cfg : Config) (f : Nat → Nat) {r : Nat} (hr : r < cfg.maxBatchSize)
    (m : Nat) :
    totalMapped cfg (Function.update f r m) + f r = totalMapped cfg f + m := by
  refine sum_map_add_eq_of_eq_of_ne (r := r) List.nodup_range (List.mem_range.mpr hr) ?_ ?_
  · rw [Function.update_self, Nat.add_comm]
  · intro q _ hq
    exact Function.update_of_ne hq m f

theorem PageInv.length_pool {s : State} (h : PageInv cfg reserved s) :
    s.pages.length + cfg.pagesPerKvblock * totalMapped cfg s.mappedPages = reserved.length := by
  have hlen := h.conserved.length_eq
  rw [List.length_append, length_pagesOf, h.keys.length_eq, length_mappedKeys,
    ← Nat.mul_assoc, ← cfg.pagesPerKvblock_eq] at hlen
  exact hlen

/-- **Whole blocks**: the free pool never holds part of a KV block. -/
theorem PageInv.dvd_length_pool {s : State} (h : PageInv cfg reserved s) :
    cfg.pagesPerKvblock ∣ s.pages.length := by
  have hsum := h.length_pool
  have hwhole := h.whole
  rw [← hsum] at hwhole
  exact (Nat.dvd_add_iff_left (Nat.dvd_mul_right ..)).mpr hwhole

/-- Free and mapped blocks are all the blocks there are. -/
theorem PageInv.pool_add_mapped {s : State} (h : PageInv cfg reserved s) :
    cfg.pagesToKvblocks s.pages.length + totalMapped cfg s.mappedPages =
      totalKvblocks cfg reserved := by
  have hpos := cfg.pagesPerKvblock_pos
  obtain ⟨k, hk⟩ := h.dvd_length_pool
  rw [totalKvblocks, ← h.length_pool, Config.pagesToKvblocks, hk, ← Nat.mul_add,
    Nat.mul_div_cancel_left _ hpos, Nat.mul_div_cancel_left _ hpos]

/-- `kvblocks_available` in terms of the counters. -/
theorem PageInv.kvblocksAvailable_iff {s : State} (h : PageInv cfg reserved s) (n : Nat) :
    kvblocksAvailable cfg s n = true ↔
      n + totalMapped cfg s.mappedPages ≤ totalKvblocks cfg reserved := by
  rw [← h.pool_add_mapped, kvblocksAvailable, decide_eq_true_eq]
  exact (Nat.add_le_add_iff_right).symm

theorem PageInv.mem_pagemap {s : State} (h : PageInv cfg reserved s) {key : PageKey} :
    key ∈ s.pagemap ↔ ∃ r i layer, r < cfg.maxBatchSize ∧ i < s.mappedPages r ∧
      layer ∈ cfg.layers ∧ key = (r, cfg.blockOffset r i, layer) := by
  rw [AList.mem_keys, h.keys.mem_iff, mem_mappedKeys]

/-- Lengths and tunables are not part of the invariant. -/
theorem PageInv.congr {s s' : State} (h : PageInv cfg reserved s) (hpages : s'.pages = s.pages)
    (hmap : s'.pagemap = s.pagemap) (hmapped : s'.mappedPages = s.mappedPages) :
    PageInv cfg reserved s' := by
  refine ⟨?_, ?_, ?_, h.whole⟩
  · rw [hpages, hmap]
    exact h.conserved
  · rw [hmap, hmapped]
    exact h.keys
  · rw [hmapped]
    exact h.room

theorem PageInv.setReqSeqLength {s : State} (h : PageInv cfg reserved s) (r len : Nat) :
    PageInv cfg reserved (s.setReqSeqLength r len) :=
  h.congr rfl rfl rfl

/-- `s'` comes from `s` by mapping and unmapping blocks only, and has the counters `mapped'`. -/
structure Remapped (cfg : Config) (reserved : List Page) (s s' : State) (mapped' : Nat → Nat) :
    Prop where
  inv : PageInv cfg reserved s'
  mapped : s'.mappedPages = mapped'
  lengths : s'.currSeqLengths = s.currSeqLengths
  deferred : s'.deferredReclaim = s.deferredReclaim

theorem Remapped.refl {s : State} (h : PageInv cfg reserved s) :
    Remapped cfg reserved s s s.mappedPages :=
  ⟨h, rfl, rfl, rfl⟩

theorem Remapped.trans {s₀ s₁ s₂ : State} {f g : Nat → Nat} (h₁ : Remapped cfg reserved s₀ s₁ f)
    (h₂ : Remapped cfg reserved s₁ s₂ g) : Remapped cfg reserved s₀ s₂ g :=
  ⟨h₂.inv, h₂.mapped, h₂.lengths.trans h₁.lengths, h₂.deferred.trans h₁.deferred⟩

/-! ## Layer B: one block -/

theorem slotRoom_update {f : Nat → Nat} {r m : Nat}
    (hroom : ∀ q, q < cfg.maxBatchSize → cfg.SlotRoom q (f q)) (hr : cfg.SlotRoom r m) :
    ∀ q, q < cfg.maxBatchSize → cfg.SlotRoom q (Function.update f r m q) := by
  intro q hq
  by_cases hqr : q = r
  · subst hqr
    rw [Function.update_self]
    exact hr
  · rw [Function.update_of_ne hqr]
    exact hroom q hq

/-- **Mapping one block** succeeds when the pool has a KV block and the slot has room. -/
theorem mapReqPageOne_spec {s : State} (hinv : PageInv cfg reserved s) {r : Nat}
    (hr : r < cfg.maxBatchSize)
    (hvalid : cfg.isValidOffset r (cfg.blockOffset r (s.mappedPages r)) = true)
    (hpool : cfg.pagesPerKvblock ≤ s.pages.length) :
    ∃ s', mapReqPageOne cfg r s = .done s' ∧
      Remapped cfg reserved s s' (Function.update s.mappedPages r (s.mappedPages r + 1)) := by
  have hroom : cfg.SlotRoom r (s.mappedPages r + 1) := (hinv.room r hr).succ hvalid
  -- no block of the slot has the next block's offset
  have hfresh : ∀ l ∈ cfg.layers,
      (r, cfg.blockOffset r (s.mappedPages r), l) ∉ s.pagemap := by
    intro l _ hmem
    obtain ⟨q, i, l', -, hi, -, heq⟩ := hinv.mem_pagemap.mp hmem
    simp only [Prod.mk.injEq] at heq
    obtain ⟨rfl, hoff, -⟩ := heq
    have := hroom.blockOffset_inj (Nat.lt_succ_self _) (Nat.lt_succ_of_lt hi) hoff
    omega
  obtain ⟨s₁, hrun, hmaps⟩ := forEach_mapPages r (cfg.blockOffset r (s.mappedPages r)) cfg.layers s
    cfg.layers_nodup (by rw [← cfg.pagesPerKvblock_eq]; exact hpool) hfresh
  -- the counter goes up last, and with it the set of keys that should be mapped
  refine ⟨{ s₁ with mappedPages := Function.update s₁.mappedPages r (s₁.mappedPages r + 1) },
    by rw [mapReqPageOne, hrun, Outcome.andThen_done], ⟨?_, ?_, hmaps.lengths, hmaps.deferred⟩⟩
  · refine ⟨hmaps.conserved.trans hinv.conserved, ?_, ?_, hinv.whole⟩
    · rw [hmaps.mapped]
      refine (hmaps.keys.trans (hinv.keys.append_left _)).trans (mappedKeys_succ hr ?_ ?_).symm
      · exact Function.update_self ..
      · intro q hq
        exact Function.update_of_ne hq ..
    · rw [hmaps.mapped]
      exact slotRoom_update hinv.room hroom
  · show Function.update s₁.mappedPages r (s₁.mappedPages r + 1) = _
    rw [hmaps.mapped]

/-- **Unmapping one block** of a slot that has one finds the block's keys in the pagemap. -/
theorem unmapReqPageOne_spec {s : State} (hinv : PageInv cfg reserved s) {r : Nat}
    (hr : r < cfg.maxBatchSize) (hpos : 0 < s.mappedPages r) :
    Remapped cfg reserved s (unmapReqPageOne cfg r s)
      (Function.update s.mappedPages r (s.mappedPages r - 1)) := by
  obtain ⟨m, hm⟩ : ∃ m, s.mappedPages r = m + 1 := ⟨s.mappedPages r - 1, by omega⟩
  -- the pagemap has the keys of the last block, so `UNMAP_PAGES` finds them
  have hmem : ∀ l ∈ cfg.layers, (r, cfg.blockOffset r m, l) ∈ s.pagemap := fun l hl =>
    hinv.mem_pagemap.mpr ⟨r, m, l, hr, by omega, hl, rfl⟩
  have hmaps := foldl_unmapPages r (cfg.blockOffset r m) cfg.layers s cfg.layers_nodup hmem
  simp only [unmapReqPageOne, hm, Nat.add_sub_cancel]
  generalize cfg.layers.foldl (fun s l => unmapPages r (cfg.blockOffset r m) l s) s = s₁ at hmaps
  have hmapped : s₁.mappedPages r - 1 = m := by rw [← hmaps.mapped, hm, Nat.add_sub_cancel]
  refine ⟨⟨hmaps.conserved.symm.trans hinv.conserved, ?_, ?_, hinv.whole⟩, ?_,
    hmaps.lengths.symm, hmaps.deferred.symm⟩
  · -- cancel the block's keys on both sides
    show s₁.pagemap.keys.Perm
      (mappedKeys cfg (Function.update s₁.mappedPages r (s₁.mappedPages r - 1)))
    rw [hmapped, ← hmaps.mapped]
    have hsplit : (mappedKeys cfg s.mappedPages).Perm
        (blockKeys cfg r m ++ mappedKeys cfg (Function.update s.mappedPages r m)) := by
      have := mappedKeys_succ (f := Function.update s.mappedPages r m) (g := s.mappedPages) hr
        (by rw [Function.update_self, hm]) (fun q hq => (Function.update_of_ne hq ..).symm)
      rwa [Function.update_self] at this
    exact (List.perm_append_left_iff _).mp (hmaps.keys.symm.trans (hinv.keys.trans hsplit))
  · rw [hmapped, ← hmaps.mapped]
    exact slotRoom_update hinv.room ((hinv.room r hr).mono (by omega))
  · show Function.update s₁.mappedPages r (s₁.mappedPages r - 1) = _
    rw [hmapped, ← hmaps.mapped]

/-! ## Layer C: release, growth and reclaim -/

/-- The `while` loop of `release_kvcache_pages_some` stops at the retained count. -/
theorem releaseWhile_spec {r : Nat} (hr : r < cfg.maxBatchSize) (k n : Nat) {s : State}
    (hinv : PageInv cfg reserved s) (hn : s.mappedPages r ≤ n + k) :
    Remapped cfg reserved s (releaseWhile cfg r k n s)
      (Function.update s.mappedPages r (min (s.mappedPages r) k)) := by
  -- the fuel bounds the excess over the retained count
  induction n generalizing s with
  | zero =>
    rw [min_eq_left (by omega), Function.update_eq_self]
    exact .refl hinv
  | succ n ih =>
    simp only [releaseWhile]
    split
    case isTrue hlt =>
      have hone := unmapReqPageOne_spec hinv hr (by omega)
      have hmr : (unmapReqPageOne cfg r s).mappedPages r = s.mappedPages r - 1 := by
        rw [hone.mapped, Function.update_self]
      have hrest := ih hone.inv (by omega)
      rw [hmr, hone.mapped, Function.update_idem, min_eq_right (by omega)] at hrest
      rw [min_eq_right (by omega)]
      exact hone.trans hrest
    case isFalse hle =>
      rw [min_eq_left (by omega), Function.update_eq_self]
      exact .refl hinv

theorem releaseKvcachePagesSome_spec {r : Nat} (hr : r < cfg.maxBatchSize) (k : Nat) {s : State}
    (hinv : PageInv cfg reserved s) :
    Remapped cfg reserved s (releaseKvcachePagesSome cfg r k s)
      (Function.update s.mappedPages r (min (s.mappedPages r) k)) :=
  releaseWhile_spec hr k _ hinv (by omega)

theorem releaseKvcachePagesAll_spec {r : Nat} (hr : r < cfg.maxBatchSize) {s : State}
    (hinv : PageInv cfg reserved s) :
    Remapped cfg reserved s (releaseKvcachePagesAll cfg r s)
      (Function.update s.mappedPages r 0) := by
  have h := releaseKvcachePagesSome_spec hr 0 hinv
  rwa [Nat.min_zero] at h

/-- The growth loop maps up to `n` blocks of the slot and stops early only at the end of
    the slot's window. -/
theorem growLoop_spec {r : Nat} (hr : r < cfg.maxBatchSize) (n : Nat) {s : State}
    (hinv : PageInv cfg reserved s) (hpool : n * cfg.pagesPerKvblock ≤ s.pages.length) :
    ∃ s' m, growLoop cfg r n s = .done s' ∧
      Remapped cfg reserved s s' (Function.update s.mappedPages r m) ∧
      s.mappedPages r ≤ m ∧ m ≤ s.mappedPages r + n ∧
      (m = s.mappedPages r + n ∨ cfg.isValidOffset r (cfg.blockOffset r m) = false) := by
  -- every turn takes one KV block from the pool and gives it to the slot
  induction n generalizing s with
  | zero =>
    refine ⟨s, s.mappedPages r, rfl, ?_, le_rfl, le_rfl, .inl rfl⟩
    rw [Function.update_eq_self]
    exact .refl hinv
  | succ n ih =>
    rw [Nat.succ_mul] at hpool
    simp only [growLoop]
    by_cases hvalid : cfg.isValidOffset r (cfg.blockOffset r (s.mappedPages r)) = true
    · obtain ⟨s₁, hone, hre⟩ := mapReqPageOne_spec hinv hr hvalid (by omega)
      have hmr : s₁.mappedPages r = s.mappedPages r + 1 := by rw [hre.mapped, Function.update_self]
      -- one KV block has left the pool
      have hlen : s₁.pages.length + cfg.pagesPerKvblock = s.pages.length := by
        have h₀ := hinv.length_pool
        have h₁ := hre.inv.length_pool
        have hsum := totalMapped_update cfg s.mappedPages hr (s.mappedPages r + 1)
        rw [← hre.mapped] at hsum
        have : totalMapped cfg s₁.mappedPages = totalMapped cfg s.mappedPages + 1 := by omega
        rw [this, Nat.mul_add, Nat.mul_one] at h₁
        omega
      obtain ⟨s', m, hrun, hre', hlo, hhi, hend⟩ := ih hre.inv (by omega)
      rw [hre.mapped, Function.update_idem] at hre'
      refine ⟨s', m, ?_, hre.trans hre', by omega, by omega, ?_⟩
      · rw [if_pos hvalid, hone, Outcome.andThen_done, hrun]
      · exact hend.imp_left fun h => by omega
    -- the window is full
    · refine ⟨s, s.mappedPages r, if_neg hvalid, ?_, le_rfl, by omega, .inr (by simpa using hvalid)⟩
      rw [Function.update_eq_self]
      exact .refl hinv

/-- What `grow_kvcache_phys` leaves behind: at most `numBlocks` more blocks on a return, and
    the unchanged state on the out-of-memory exception. -/
theorem growKvcachePhys_spec {r : Nat} (hr : r < cfg.maxBatchSize) (n : Nat) (sync : Bool)
    {s : State} (hinv : PageInv cfg reserved s) :
    (growKvcachePhys cfg r n sync s).Ensures
      (fun s' => ∃ m, Remapped cfg reserved s s' (Function.update s.mappedPages r m) ∧
        s.mappedPages r ≤ m ∧ m ≤ s.mappedPages r + n)
      (fun e s' => e = .oomOnDemand ∧ s' = s ∧ kvblocksAvailable cfg s n = false) := by
  -- the exits that map nothing
  have hstay : ∃ m, Remapped cfg reserved s s (Function.update s.mappedPages r m) ∧
      s.mappedPages r ≤ m ∧ m ≤ s.mappedPages r + n := by
    refine ⟨s.mappedPages r, ?_, le_rfl, Nat.le_add_right ..⟩
    rw [Function.update_eq_self]
    exact .refl hinv
  unfold growKvcachePhys
  split
  · exact hstay
  split
  case isTrue hfull =>
    split
    · exact hstay
    · exact ⟨rfl, rfl, by simpa using hfull⟩
  case isFalse havail =>
    -- the check of the pool is what `growLoop_spec` needs
    have hpool : n * cfg.pagesPerKvblock ≤ s.pages.length :=
      kvblocksAvailable_pool (by simpa using havail)
    obtain ⟨s', m, hrun, hre, hlo, hhi, -⟩ := growLoop_spec hr n hinv hpool
    rw [hrun]
    exact ⟨m, hre, hlo, hhi⟩

/-- The reclaim loop takes from a slot only what its recorded length does not need, and it
    either meets the demand or has done so for every slot of the list. -/
theorem reclaimLoop_spec (n : Nat) (rs : List Nat) (hrs : ∀ r ∈ rs, r < cfg.maxBatchSize)
    {s : State} (hinv : PageInv cfg reserved s) :
    ∃ f, Remapped cfg reserved s (reclaimLoop cfg n rs s) f ∧
      (∀ q, f q ≤ s.mappedPages q) ∧
      (∀ q, f q = s.mappedPages q ∨ f q = cfg.tokensToPages (s.currSeqLengths q)) ∧
      (kvblocksAvailable cfg (reclaimLoop cfg n rs s) n = true ∨
        ∀ q ∈ rs, f q ≤ cfg.tokensToPages (s.currSeqLengths q)) := by
  induction rs generalizing s with
  | nil =>
    exact ⟨s.mappedPages, .refl hinv, fun _ => le_rfl, fun _ => .inl rfl, .inr (by simp)⟩
  | cons r rs ih =>
    have hr := hrs r List.mem_cons_self
    have hrs' : ∀ q ∈ rs, q < cfg.maxBatchSize := fun q hq => hrs q (List.mem_cons_of_mem _ hq)
    simp only [reclaimLoop]
    split
    -- the demand is met: the loop returns
    case isTrue havail =>
      exact ⟨s.mappedPages, .refl hinv, fun _ => le_rfl, fun _ => .inl rfl, .inl havail⟩
    split
    -- the slot has no block to spare
    case isTrue hle =>
      obtain ⟨f, hre, hmono, hval, hdone⟩ := ih hrs' hinv
      refine ⟨f, hre, hmono, hval, hdone.imp_right fun hall q hq => ?_⟩
      rcases List.mem_cons.mp hq with rfl | hq
      · exact (hmono q).trans hle
      · exact hall q hq
    -- the slot gives back what its length does not need
    case isFalse hgt =>
      have hone := releaseKvcachePagesSome_spec hr (cfg.tokensToPages (s.currSeqLengths r)) hinv
      rw [min_eq_right (by omega)] at hone
      have hmr :
          (releaseKvcachePagesSome cfg r (cfg.tokensToPages (s.currSeqLengths r)) s).mappedPages r
            = cfg.tokensToPages (s.currSeqLengths r) := by rw [hone.mapped, Function.update_self]
      have hmq : ∀ q, q ≠ r →
          (releaseKvcachePagesSome cfg r (cfg.tokensToPages (s.currSeqLengths r)) s).mappedPages q
            = s.mappedPages q := fun q hq => by rw [hone.mapped, Function.update_of_ne hq]
      -- afterwards no slot gains, so this one stays at or below its need
      obtain ⟨f, hre, hmono, hval, hdone⟩ := ih hrs' hone.inv
      rw [hone.lengths] at hval hdone
      refine ⟨f, hone.trans hre, fun q => ?_, fun q => ?_, hdone.imp_right fun hall q hq => ?_⟩
      · by_cases hqr : q = r
        · have := hmono q
          rw [hqr] at this ⊢
          omega
        · rw [← hmq q hqr]
          exact hmono q
      · by_cases hqr : q = r
        · rcases hval q with h | h
          · rw [hqr, hmr] at h
            exact .inr (hqr ▸ h)
          · exact .inr h
        · rw [← hmq q hqr]
          exact hval q
      · rcases List.mem_cons.mp hq with rfl | hq
        · rw [← hmr]
          exact hmono q
        · exact hall q hq

theorem reclaimKvblocksOnDemand_spec (n : Nat) {s : State} (hinv : PageInv cfg reserved s) :
    ∃ f, Remapped cfg reserved s (reclaimKvblocksOnDemand cfg n s) f ∧
      (∀ q, f q ≤ s.mappedPages q) ∧
      (∀ q, f q = s.mappedPages q ∨ f q = cfg.tokensToPages (s.currSeqLengths q)) ∧
      (kvblocksAvailable cfg (reclaimKvblocksOnDemand cfg n s) n = true ∨
        ∀ q, q < cfg.maxBatchSize → f q ≤ cfg.tokensToPages (s.currSeqLengths q)) := by
  obtain ⟨f, hre, hmono, hval, hdone⟩ := reclaimLoop_spec n (List.range cfg.maxBatchSize).reverse
    (by simp) hinv
  exact ⟨f, hre, hmono, hval, hdone.imp_right fun hall q hq => hall q (by simpa using hq)⟩

/-! ## Layer D: the API calls and runs of them -/

/-- A result that keeps the invariant on both exits and throws nothing but the
    out-of-memory exception. -/
def Safe (cfg : Config) (reserved : List Page) (o : Result) : Prop :=
  o.Ensures (PageInv cfg reserved) (fun e s => e = .oomOnDemand ∧ PageInv cfg reserved s)

theorem Safe.state {o : Result} (h : Safe cfg reserved o) : PageInv cfg reserved o.state := by
  cases o with
  | done s => exact h
  | throw e s => exact h.2

theorem Safe.ne_poolEmpty {o : Result} (h : Safe cfg reserved o) (s : State) :
    o ≠ .throw .poolEmpty s := by
  rintro rfl
  cases h.1

theorem growKvcachePhys_safe {r : Nat} (hr : r < cfg.maxBatchSize) (n : Nat) (sync : Bool)
    {s : State} (hinv : PageInv cfg reserved s) :
    Safe cfg reserved (growKvcachePhys cfg r n sync s) := by
  have hspec := growKvcachePhys_spec hr n sync hinv
  unfold Safe
  cases hrun : growKvcachePhys cfg r n sync s with
  | done s' =>
    rw [hrun] at hspec
    obtain ⟨m, hre, -⟩ := hspec
    exact hre.inv
  | throw e s' =>
    rw [hrun] at hspec
    obtain ⟨he, rfl, -⟩ := hspec
    exact ⟨he, hinv⟩

/-- The state from which a demand of `n` blocks is served: reclaimed first if need be. -/
theorem PageInv.reclaimIfNeeded {s : State} (hinv : PageInv cfg reserved s) (n : Nat) :
    PageInv cfg reserved
      (if kvblocksAvailable cfg s n then s else reclaimKvblocksOnDemand cfg n s) := by
  split
  · exact hinv
  · obtain ⟨f, hre, -⟩ := reclaimKvblocksOnDemand_spec n hinv
    exact hre.inv

theorem mapPagesForCurrStep_safe {r : Nat} (hr : r < cfg.maxBatchSize) (seqLen : Nat)
    {s : State} (hinv : PageInv cfg reserved s) :
    Safe cfg reserved (mapPagesForCurrStep cfg r seqLen s) := by
  unfold mapPagesForCurrStep
  split
  · exact hinv
  dsimp only
  split
  · exact hinv
  -- reclaim if need be, then grow
  have hgrow := growKvcachePhys_safe hr (cfg.tokensToPages seqLen - s.mappedPages r) true
    (hinv.reclaimIfNeeded (cfg.tokensToPages seqLen - s.mappedPages r))
  exact Outcome.Ensures.andThen hgrow fun s' hs' => hs'.setReqSeqLength r seqLen

theorem stepSyncSlot_safe (seqLens : Nat → Nat) (eagerReclaim : Bool) {r : Nat}
    (hr : r < cfg.maxBatchSize) {s : State} (hinv : PageInv cfg reserved s) :
    Safe cfg reserved (stepSyncSlot cfg seqLens eagerReclaim r s) := by
  have hset := hinv.setReqSeqLength r (seqLens r)
  unfold stepSyncSlot
  dsimp only
  split
  · exact (releaseKvcachePagesAll_spec hr hset).inv
  · exact mapPagesForCurrStep_safe hr (seqLens r) hset

theorem stepSync_safe (seqLens : Nat → Nat) (eagerReclaim : Bool) {s : State}
    (hinv : PageInv cfg reserved s) : Safe cfg reserved (stepSync cfg seqLens eagerReclaim s) :=
  Outcome.Ensures.forEach_mem (fun _ hr _ hs =>
    stepSyncSlot_safe seqLens eagerReclaim (List.mem_range.mp hr) hs) hinv

theorem stepAsync_safe (seqLens : Nat → Nat) {s : State} (hinv : PageInv cfg reserved s) :
    Safe cfg reserved (stepAsync cfg seqLens s) := by
  have hset : PageInv cfg reserved { s with currSeqLengths := seqLens } := hinv.congr rfl rfl rfl
  exact Outcome.Ensures.forEach_mem (fun _ hr _ hs =>
    mapPagesForCurrStep_safe (List.mem_range.mp hr) _ hs) hset

/-- `do_reclaim_pages` leaves the active slots alone. -/
theorem doReclaimPages_spec {s : State} (hinv : PageInv cfg reserved s) :
    ∃ f, Remapped cfg reserved s (doReclaimPages cfg s) f ∧
      ∀ q, s.isActiveReq q = true → f q = s.mappedPages q := by
  unfold doReclaimPages
  split
  · exact ⟨_, .refl hinv, fun _ _ => rfl⟩
  dsimp only
  split
  case h_1 r hfind =>
    -- the slot that was found is in range, inactive, and has a block
    have hmem := List.mem_of_find?_eq_some hfind
    have hsome := List.find?_some hfind
    simp only [Bool.and_eq_true, Bool.not_eq_true', Bool.or_eq_false_iff, bne_iff_ne, ne_eq]
      at hsome
    obtain ⟨⟨hinactive, -⟩, hmapped⟩ := hsome
    refine ⟨_, unmapReqPageOne_spec hinv (by simpa using hmem) (by omega), fun q hq => ?_⟩
    apply Function.update_of_ne
    rintro rfl
    rw [hinactive] at hq
    cases hq
  case h_2 => exact ⟨_, .refl hinv, fun _ _ => rfl⟩

theorem doReclaimPages_inv {s : State} (hinv : PageInv cfg reserved s) :
    PageInv cfg reserved (doReclaimPages cfg s) := by
  obtain ⟨f, hre, -⟩ := doReclaimPages_spec hinv
  exact hre.inv

section Manager

variable {P : State → Prop} {E : AllocError → State → Prop}
  (hgrow : ∀ r, r < cfg.maxBatchSize → ∀ n s, P s → (growKvcachePhys cfg r n false s).Ensures P E)

include hgrow

/-- The eager loops run on a state with two local variables; the condition ignores them. -/
theorem eagerBody_ensures (c : Nat) {r : Nat} (hr : r < cfg.maxBatchSize) {e : EagerState}
    (h : P e.st) :
    (eagerBody cfg c r e).Ensures (fun e' => P e'.st) (fun x e' => E x e'.st) := by
  unfold eagerBody
  split
  · exact h
  · exact Outcome.Ensures.map (hgrow r hr _ _ h)

theorem eagerRounds_ensures (counts : List Nat) {e : EagerState} (h : P e.st) :
    (Outcome.forEach (fun c => Outcome.forEach (eagerBody cfg c) (List.range cfg.maxBatchSize))
      counts e).Ensures (fun e' => P e'.st) (fun x e' => E x e'.st) := by
  refine Outcome.Ensures.forEach_mem (fun c _ e hc => ?_) h
  refine Outcome.Ensures.forEach_mem (fun r hr e he => ?_) hc
  exact eagerBody_ensures hgrow c (List.mem_range.mp hr) he

theorem eagerLoop_ensures {e : EagerState} (h : P e.st) :
    (eagerLoop cfg e).Ensures (fun e' => P e'.st) (fun x e' => E x e'.st) :=
  eagerRounds_ensures hgrow _ h

/-- **Rule of the background manager**: a run of it reclaims if need be, grows slots without
    insisting on it, and may unmap a block of an inactive slot. -/
theorem doKvcacheMemoryManagement_ensures {s : State}
    (hreclaim : ∀ n, P (if kvblocksAvailable cfg s n then s else reclaimKvblocksOnDemand cfg n s))
    (hrelease : ∀ s, P s → P (doReclaimPages cfg s)) :
    (doKvcacheMemoryManagement cfg s).Ensures P E := by
  unfold doKvcacheMemoryManagement
  dsimp only
  generalize (List.range cfg.maxBatchSize).foldl
    (fun acc r => (acc + needNewPageAsync cfg s r 1) % u64Size) 0 = nrRequired
  have hfirst := hreclaim nrRequired
  generalize (if kvblocksAvailable cfg s nrRequired then s
    else reclaimKvblocksOnDemand cfg nrRequired s) = s₁ at hfirst
  split
  · -- not even reclaiming has made enough room
    exact hfirst
  apply (Outcome.Ensures.map (eagerLoop_ensures hgrow hfirst)).andThen
  intro s' hs'
  show P (if nrRequired != 0 then s' else doReclaimPages cfg s')
  split
  · exact hs'
  · exact hrelease s' hs'

end Manager

theorem doKvcacheMemoryManagement_safe {s : State} (hinv : PageInv cfg reserved s) :
    Safe cfg reserved (doKvcacheMemoryManagement cfg s) :=
  doKvcacheMemoryManagement_ensures (fun _ hr n _ hs => growKvcachePhys_safe hr n false hs)
    hinv.reclaimIfNeeded fun _ hs => doReclaimPages_inv hs

/-- A call of the allocator's API, or one complete run of its background manager. -/
inductive Call where
  | allocNewBatchIdx (seqlen : Nat)
  | freeBatchIdx (r : Nat)
  | step (seqLens : Nat → Nat) (eagerReclaim : Bool)
  /-- The synchronous part of `step_async`. -/
  | stepAsync (seqLens : Nat → Nat)
  /-- The thread that `spawn_kvcache_manager` starts, from its start to its end. -/
  | backgroundManager
  | setDeferredReclamation (val : Bool)

/-- Effect of one call. -/
def Call.exec (cfg : Config) (c : Call) (s : State) : Result :=
  match c with
  | .allocNewBatchIdx seqlen => .done (Allocator.allocNewBatchIdx cfg seqlen s).2
  | .freeBatchIdx r => .done (Allocator.freeBatchIdx r s)
  | .step seqLens eagerReclaim => stepSync cfg seqLens eagerReclaim s
  | .stepAsync seqLens => Allocator.stepAsync cfg seqLens s
  | .backgroundManager => doKvcacheMemoryManagement cfg s
  | .setDeferredReclamation val => .done { s with deferredReclaim := val }

/-- A run of calls; one that throws leaves its partial effect behind. -/
def runCalls (cfg : Config) (calls : List Call) (s : State) : State :=
  calls.foldl (fun s c => (c.exec cfg s).state) s

/-- **Step lemma**: every call keeps the page invariant. -/
theorem Call.exec_safe (c : Call) {s : State} (hinv : PageInv cfg reserved s) :
    Safe cfg reserved (c.exec cfg s) := by
  cases c with
  | allocNewBatchIdx seqlen =>
    show PageInv cfg reserved (Allocator.allocNewBatchIdx cfg seqlen s).2
    unfold Allocator.allocNewBatchIdx
    split
    · exact hinv.setReqSeqLength ..
    · exact hinv
  | freeBatchIdx r => exact hinv.setReqSeqLength r 0
  | step seqLens eagerReclaim => exact stepSync_safe seqLens eagerReclaim hinv
  | stepAsync seqLens => exact stepAsync_safe seqLens hinv
  | backgroundManager => exact doKvcacheMemoryManagement_safe hinv
  | setDeferredReclamation val => exact hinv.congr rfl rfl rfl

/-- **Run lemma**: the page invariant holds after any sequence of calls. -/
theorem runCalls_inv (calls : List Call) {s : State} (hinv : PageInv cfg reserved s) :
    PageInv cfg reserved (runCalls cfg calls s) := by
  induction calls generalizing s with
  | nil => exact hinv
  | cons c calls ih => exact ih (c.exec_safe hinv).state

/-- The pages `reserve_physical_pages` puts in the pool, from the empty allocator. -/
theorem reservePhysicalPages_inv (newPage : Nat → Page) (freeMemory : Nat) :
    PageInv cfg (reservePhysicalPages cfg newPage freeMemory State.init).pages
      (reservePhysicalPages cfg newPage freeMemory State.init) := by
  refine ⟨?_, ?_, fun _ _ => .inl rfl, ?_⟩
  · simp [reservePhysicalPages, State.init, pagesOf]
  · simp [reservePhysicalPages, State.init, mappedKeys, slotKeys]
  · simp only [reservePhysicalPages, State.init, List.append_nil, List.length_reverse,
      List.length_map, List.length_range, List.length_nil, Nat.sub_zero]
    exact Nat.dvd_sub_mod _

theorem foldl_releaseAll_spec (rs : List Nat) (hrs : ∀ r ∈ rs, r < cfg.maxBatchSize) {s : State}
    (hinv : PageInv cfg reserved s) :
    PageInv cfg reserved (rs.foldl (fun s r => releaseKvcachePagesAll cfg r s) s) ∧
      ∀ q, q ∈ rs ∨ s.mappedPages q = 0 →
        (rs.foldl (fun s r => releaseKvcachePagesAll cfg r s) s).mappedPages q = 0 := by
  -- a slot that has been emptied stays empty
  induction rs generalizing s with
  | nil => exact ⟨hinv, fun q hq => hq.resolve_left (by simp)⟩
  | cons r rs ih =>
    have hone := releaseKvcachePagesAll_spec (hrs r List.mem_cons_self) hinv
    obtain ⟨hinv', hzero⟩ := ih (fun q hq => hrs q (List.mem_cons_of_mem _ hq)) hone.inv
    refine ⟨hinv', fun q hq => hzero q ?_⟩
    by_cases hqr : q = r
    · refine .inr ?_
      rw [hone.mapped, hqr, Function.update_self]
    · rcases hq with hq | hq
      · exact .inl ((List.mem_cons.mp hq).resolve_left hqr)
      · refine .inr ?_
        rw [hone.mapped, Function.update_of_ne hqr, hq]

/-- Once no slot has a block, every reserved page is in the pool. -/
theorem PageInv.pool_perm_of_unmapped {s : State} (h : PageInv cfg reserved s)
    (hzero : ∀ r, r < cfg.maxBatchSize → s.mappedPages r = 0) : s.pages.Perm reserved := by
  have hkeys : s.pagemap.keys = [] := by
    refine List.eq_nil_iff_forall_not_mem.mpr fun key hkey => ?_
    obtain ⟨r, i, -, hr, hi, -⟩ := h.mem_pagemap.mp (AList.mem_keys.mpr hkey)
    rw [hzero r hr] at hi
    cases hi
  have hpages : pagesOf s.pagemap = [] := by
    rw [← List.length_eq_zero_iff, length_pagesOf, hkeys]
    rfl
  have hcons := h.conserved
  rwa [hpages, List.append_nil] at hcons

theorem cleanup_releases {s : State} (hinv : PageInv cfg reserved s) :
    (cleanup cfg s).2.Perm reserved := by
  obtain ⟨hinv', hzero⟩ := foldl_releaseAll_spec (List.range cfg.maxBatchSize) (by simp) hinv
  exact (List.reverse_perm _).trans
    (hinv'.pool_perm_of_unmapped fun r hr => hzero r (.inl (List.mem_range.mpr hr)))

/-- **Physical page conservation**: after `reserve_physical_pages` and any sequence of
    calls, the pool and the pagemap together are a permutation of the reserved pages, the
    pagemap keys are those of the mapped blocks, no slot exceeds its page limit, the pool
    is a whole number of KV blocks, no further call finds the pool empty, and `cleanup`
    releases every reserved page exactly once. -/
theorem physical_page_conservation (cfg : Config) (newPage : Nat → Page) (freeMemory : Nat)
    (calls : List Call) :
    let s₀ := reservePhysicalPages cfg newPage freeMemory State.init
    let s := runCalls cfg calls s₀
    (s.pages ++ pagesOf s.pagemap).Perm s₀.pages ∧
      (∀ key, key ∈ s.pagemap ↔ ∃ r i layer, r < cfg.maxBatchSize ∧ i < s.mappedPages r ∧
        layer ∈ cfg.layers ∧
        key = (r, (r * cfg.virtBuffSizePerReq + i * cfg.pageSize) % u64Size, layer)) ∧
      (∀ r, r < cfg.maxBatchSize → s.mappedPages r ≤ cfg.maxPagesPerReq) ∧
      cfg.pagesPerKvblock ∣ s.pages.length ∧
      (∀ (c : Call) (s' : State), c.exec cfg s ≠ .throw .poolEmpty s') ∧
      (cleanup cfg s).2.Perm s₀.pages := by
  intro s₀ s
  have hinv : PageInv cfg s₀.pages s := runCalls_inv calls (reservePhysicalPages_inv ..)
  -- everything is a part of the invariant, or one more call from it
  refine ⟨hinv.conserved, fun key => hinv.mem_pagemap, fun r hr => ?_, hinv.dvd_length_pool,
    fun c s' => (c.exec_safe hinv).ne_poolEmpty s', cleanup_releases hinv⟩
  exact (hinv.room r hr).le_maxPagesPerReq

end VAttention.Allocator
