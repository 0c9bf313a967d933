import VAttention.Allocator.Demand
import VAttention.Allocator.BestFit
import VAttention.Lib.Runs

/-!
# Pages shared by all slots

`map_common_pages_in_batch` maps the same pages to the next blocks of every slot.  Each slot counts
the blocks as its own, and `unmap_req_page_one` gives the pages of a block back to the pool without
asking whether another slot still has them.  The call does not check that the blocks lie in the
windows of their slots either.  It is safe only where nothing is shared: with a single slot that has
room for the blocks.

## Layers

- **Layer A**: what it means for the pool to be sound, and that ownership implies it.
- **Layer B**: what the call does to any state.
- **Layer C**: a single slot.
- **Layer D**: two slots, and a step that releases one of them.
- **Layer E**: runs.
-/

namespace VAttention.Allocator

open VAttention.Lib

variable {cfg : Config} {s s₁ s₂ s' : State}

/-! ## Layer A: soundness of the pool -/

/-- No page is twice in the pool, none in the pool is referenced by the pagemap, and every mapping
    starts in the window of its slot. -/
structure Sound (cfg : Config) (s : State) : Prop where
  nodup : s.pages.Nodup
  unreferenced : ∀ page ∈ s.pages, page ∉ pagesOf s.pagemap
  offsets : ∀ r off layer, (r, off, layer) ∈ s.pagemap → off < (r + 1) * cfg.virtBuffSizePerReq

/-- The pool is sound after any calls, and after a `cleanup` that follows them; what that releases,
    it releases once. -/
def StaysSound (cfg : Config) (s : State) : Prop :=
  ∀ calls : List Call,
    Sound cfg (runCalls cfg calls s) ∧ Sound cfg (cleanup cfg (runCalls cfg calls s)).1 ∧
      (cleanup cfg (runCalls cfg calls s)).2.Nodup

/-- Every page has one owner: the pool or one block of one slot. -/
def Owned (cfg : Config) (s : State) : Prop :=
  ∃ reserved : List Page, reserved.Nodup ∧ PageInv cfg reserved s

theorem PageInv.offset_lt {reserved : List Page} (h : PageInv cfg reserved s) {r off layer : Nat}
    (hmem : (r, off, layer) ∈ s.pagemap) : off < (r + 1) * cfg.virtBuffSizePerReq := by
  obtain ⟨q, i, l, hq, hi, -, heq⟩ := h.mem_pagemap.mp hmem
  simp only [Prod.mk.injEq] at heq
  obtain ⟨rfl, rfl, -⟩ := heq
  have hvalid := (h.room r hq).isValidOffset hi
  rw [Config.isValidOffset, decide_eq_true_eq] at hvalid
  exact hvalid.trans_le (Nat.mod_le _ _)

theorem PageInv.sound {reserved : List Page} (h : PageInv cfg reserved s)
    (hnodup : reserved.Nodup) : Sound cfg s := by
  have hall : (s.pages ++ pagesOf s.pagemap).Nodup := h.conserved.nodup_iff.mpr hnodup
  obtain ⟨hpool, -, hdisjoint⟩ := List.nodup_append.mp hall
  exact ⟨hpool, fun page hpage hmem => hdisjoint page hpage page hmem rfl,
    fun _ _ _ => h.offset_lt⟩

theorem Owned.call (h : Owned cfg s) (c : Call) : Owned cfg (c.exec cfg s).state := by
  obtain ⟨reserved, hnodup, hinv⟩ := h
  exact ⟨reserved, hnodup, (c.exec_safe hinv).state⟩

theorem Owned.staysSound (h : Owned cfg s) : StaysSound cfg s := by
  obtain ⟨reserved, hnodup, hinv⟩ := h
  intro calls
  have hrun := runCalls_inv calls hinv
  obtain ⟨hreleased, -⟩ := foldl_releaseAll_spec (List.range cfg.maxBatchSize) (by simp) hrun
  refine ⟨hrun.sound hnodup, ⟨List.nodup_nil, by simp [cleanup], fun _ _ _ => ?_⟩, ?_⟩
  · exact hreleased.offset_lt
  · exact (cleanup_releases hrun).nodup_iff.mpr hnodup

/-! ## Layer B: what the call does to any state -/

theorem Config.layers_eq_cons (cfg : Config) : ∃ ls, cfg.layers = 0 :: ls ∧ 0 ∉ ls := by
  obtain ⟨ls, hls⟩ : ∃ ls, cfg.layers = 0 :: ls := by
    unfold Config.layers
    split
    · exact ⟨[], rfl⟩
    · obtain ⟨n, hn⟩ := Nat.exists_eq_succ_of_ne_zero cfg.numLayers_pos.ne'
      rw [hn, List.range_succ_eq_map]
      exact ⟨_, rfl⟩
  have hnodup := cfg.layers_nodup
  rw [hls] at hnodup
  exact ⟨ls, hls, (List.nodup_cons.mp hnodup).1⟩

/-- Going from `s` to `s'` maps one pair of pages to the next block of every slot in one layer. -/
structure SharesPair (cfg : Config) (layer : Nat) (pair : Page × Page) (s s' : State) : Prop where
  pool : s'.pages = s.pages.drop 2
  mapped : s'.mappedPages = s.mappedPages
  lookup : ∀ r off l, s'.pagemap.lookup (r, off, l) =
    if r < cfg.maxBatchSize ∧ off = cfg.blockOffset r (s.mappedPages r) ∧ l = layer then some pair
    else s.pagemap.lookup (r, off, l)

theorem mapCommonPages_shares (cfg : Config) (layer : Nat) (hpool : 2 ≤ s.pages.length) :
    ∃ pair s', mapCommonPages cfg layer s = .done s' ∧ SharesPair cfg layer pair s s' := by
  match hpages : s.pages with
  | [] => simp [hpages] at hpool
  | [_] => simp [hpages] at hpool
  | kPage :: vPage :: rest =>
    have hrun : mapCommonPages cfg layer s = .done { s with
        pages := rest
        pagemap := (List.range cfg.maxBatchSize).foldl
          (fun m r => m.insert (r, cfg.blockOffset r (s.mappedPages r), layer) (kPage, vPage))
          s.pagemap } := by
      simp only [mapCommonPages, hpages]
    refine ⟨(kPage, vPage), _, hrun, by simp [hpages], rfl, fun r off l => ?_⟩
    dsimp only
    rw [lookup_foldl_insert fun r => (r, cfg.blockOffset r (s.mappedPages r), layer)]
    congr 1
    simp only [List.mem_map, List.mem_range, Prod.mk.injEq, eq_iff_iff]
    constructor
    · rintro ⟨q, hq, rfl, rfl, rfl⟩
      exact ⟨hq, rfl, rfl⟩
    · rintro ⟨hr, rfl, rfl⟩
      exact ⟨r, hr, rfl, rfl, rfl⟩

/-- The other layers leave the entries of layer 0 alone. -/
theorem forEach_mapCommonPages_keeps (cfg : Config) (ls : List Nat) (hzero : 0 ∉ ls)
    (hpool : 2 * ls.length ≤ s.pages.length) :
    ∃ s', Outcome.forEach (mapCommonPages cfg) ls s = .done s' ∧
      s'.pages = s.pages.drop (2 * ls.length) ∧ s'.mappedPages = s.mappedPages ∧
      ∀ r off, s'.pagemap.lookup (r, off, 0) = s.pagemap.lookup (r, off, 0) := by
  induction ls generalizing s with
  | nil => exact ⟨s, rfl, by simp, rfl, fun _ _ => rfl⟩
  | cons l ls ih =>
    rw [List.length_cons] at hpool
    obtain ⟨pair, s₁, hfirst, hshares⟩ :=
      mapCommonPages_shares cfg l (by omega : 2 ≤ s.pages.length)
    have hlen : s₁.pages.length = s.pages.length - 2 := by rw [hshares.pool, List.length_drop]
    rw [List.mem_cons, not_or] at hzero
    obtain ⟨s', hrest, hpages, hmapped, hlookup⟩ := ih (s := s₁) hzero.2 (by omega)
    refine ⟨s', ?_, ?_, hmapped.trans hshares.mapped, fun r off => ?_⟩
    · rw [Outcome.forEach_cons, hfirst, Outcome.andThen_done, hrest]
    · rw [hpages, hshares.pool, List.drop_drop, List.length_cons, Nat.mul_succ, Nat.add_comm]
    · rw [hlookup, hshares.lookup, if_neg fun h => hzero.1 h.2.2]

theorem foldl_incReqPageCount (rs : List Nat) (hnodup : rs.Nodup) (m : Nat → Nat) (q : Nat) :
    rs.foldl (fun m r => Function.update m r (m r + 1)) m q = if q ∈ rs then m q + 1 else m q := by
  induction rs generalizing m with
  | nil => rfl
  | cons r rs ih =>
    obtain ⟨hr, hnodup'⟩ := List.nodup_cons.mp hnodup
    rw [List.foldl_cons, ih hnodup']
    by_cases hq : q = r
    · simp [hq, hr]
    · simp [hq]

/-- One shared block. -/
structure SharesBlock (cfg : Config) (pair : Page × Page) (s s' : State) : Prop where
  pool : s'.pages = s.pages.drop cfg.pagesPerKvblock
  mapped : ∀ r, r < cfg.maxBatchSize → s'.mappedPages r = s.mappedPages r + 1
  lookup : ∀ r off, s'.pagemap.lookup (r, off, 0) =
    if r < cfg.maxBatchSize ∧ off = cfg.blockOffset r (s.mappedPages r) then some pair
    else s.pagemap.lookup (r, off, 0)

theorem mapCommonBlock_shares (hpool : cfg.pagesPerKvblock ≤ s.pages.length) :
    ∃ pair s', mapCommonBlock cfg s = .done s' ∧ SharesBlock cfg pair s s' := by
  obtain ⟨ls, hlayers, hzero⟩ := cfg.layers_eq_cons
  have hsize := cfg.pagesPerKvblock_eq
  rw [hlayers, List.length_cons] at hsize
  obtain ⟨pair, s₁, hfirst, hshares⟩ :=
    mapCommonPages_shares cfg 0 (by omega : 2 ≤ s.pages.length)
  have hlen : s₁.pages.length = s.pages.length - 2 := by rw [hshares.pool, List.length_drop]
  obtain ⟨s₂, hrest, hpages, hmapped, hlookup⟩ :=
    forEach_mapCommonPages_keeps cfg ls hzero (by omega : 2 * ls.length ≤ s₁.pages.length)
  refine ⟨pair, _, by rw [mapCommonBlock, hlayers, Outcome.forEach_cons, hfirst,
    Outcome.andThen_done, hrest, Outcome.andThen_done], ?_, fun r hr => ?_, fun r off => ?_⟩
  · show s₂.pages = _
    rw [hpages, hshares.pool, List.drop_drop, hsize, Nat.mul_succ, Nat.add_comm]
  · show (List.range cfg.maxBatchSize).foldl _ s₂.mappedPages r = _
    rw [foldl_incReqPageCount _ List.nodup_range, if_pos (List.mem_range.mpr hr), hmapped,
      hshares.mapped]
  · show s₂.pagemap.lookup (r, off, 0) = _
    rw [hlookup, hshares.lookup]
    simp only [and_true]

/-- `n` shared blocks: all of them are entered, and the last one has the same pages in every
    slot. -/
structure SharesBlocks (cfg : Config) (n : Nat) (s s' : State) : Prop where
  mapped : ∀ r, r < cfg.maxBatchSize → s'.mappedPages r = s.mappedPages r + n
  kept : ∀ r off, (s.pagemap.lookup (r, off, 0)).isSome → (s'.pagemap.lookup (r, off, 0)).isSome
  entered : ∀ r, r < cfg.maxBatchSize → ∀ i, i < n →
    (s'.pagemap.lookup (r, cfg.blockOffset r (s.mappedPages r + i), 0)).isSome
  last : 0 < n → ∃ pair, ∀ r, r < cfg.maxBatchSize →
    s'.pagemap.lookup (r, cfg.blockOffset r (s.mappedPages r + n - 1), 0) = some pair

/-- **Run lemma** of the loop of `map_common_pages_in_batch`. -/
theorem forEach_mapCommonBlock_shares (counts : List Nat)
    (hpool : counts.length * cfg.pagesPerKvblock ≤ s.pages.length) :
    ∃ s', Outcome.forEach (fun _ => mapCommonBlock cfg) counts s = .done s' ∧
      SharesBlocks cfg counts.length s s' := by
  induction counts generalizing s with
  | nil => exact ⟨s, rfl, fun _ _ => rfl, fun _ _ => id, by simp, by simp⟩
  | cons c counts ih =>
    rw [List.length_cons, Nat.succ_mul] at hpool
    obtain ⟨pair, s₁, hfirst, hshares⟩ :=
      mapCommonBlock_shares (by omega : cfg.pagesPerKvblock ≤ s.pages.length)
    have hlen : s₁.pages.length = s.pages.length - cfg.pagesPerKvblock := by
      rw [hshares.pool, List.length_drop]
    obtain ⟨s', hrest, hblocks⟩ := ih (s := s₁) (by omega)
    have hstays : ∀ r off, (s.pagemap.lookup (r, off, 0)).isSome →
        (s₁.pagemap.lookup (r, off, 0)).isSome := by
      intro r off h
      rw [hshares.lookup]
      split_ifs
      · rfl
      · exact h
    refine ⟨s', by rw [Outcome.forEach_cons, hfirst, Outcome.andThen_done, hrest], ?_⟩
    rw [List.length_cons]
    refine ⟨fun r hr => ?_, fun r off h => hblocks.kept r off (hstays r off h), ?_, fun _ => ?_⟩
    · rw [hblocks.mapped r hr, hshares.mapped r hr]
      omega
    · rintro r hr (_ | i) hi
      · refine hblocks.kept _ _ ?_
        rw [hshares.lookup, if_pos ⟨hr, rfl⟩]
        rfl
      · have hentered := hblocks.entered r hr i (by omega)
        rwa [hshares.mapped r hr, Nat.add_right_comm, Nat.add_assoc] at hentered
    · -- the last block is the first one if there is no other
      rcases Nat.eq_zero_or_pos counts.length with hzero | hpos
      · refine ⟨pair, fun r hr => ?_⟩
        rw [List.length_eq_zero_iff] at hzero
        subst hzero
        cases hrest
        rw [hshares.lookup, if_pos ⟨hr, rfl⟩]
      · obtain ⟨last, hlast⟩ := hblocks.last hpos
        refine ⟨last, fun r hr => ?_⟩
        rw [← hlast r hr, hshares.mapped r hr, Nat.add_right_comm, Nat.add_assoc]

/-! ## Layer C: a single slot -/

/-- With one slot nothing is shared, and a turn is one of `grow_kvcache_phys` without its check. -/
theorem mapCommonBlock_eq (hone : cfg.maxBatchSize = 1) (s : State) :
    mapCommonBlock cfg s = mapReqPageOne cfg 0 s := by
  have hlayers : ∀ ls s, Outcome.forEach (mapCommonPages cfg) ls s =
      Outcome.forEach (fun l => mapPages 0 (cfg.blockOffset 0 (s.mappedPages 0)) l) ls s := by
    intro ls
    induction ls with
    | nil => exact fun _ => rfl
    | cons l ls ih =>
      intro s
      rw [Outcome.forEach_cons, Outcome.forEach_cons, mapCommonPages, mapPages, hone]
      split
      · exact ih _
      · rfl
      · rfl
  rw [mapCommonBlock, mapReqPageOne, hlayers, hone]
  rfl

/-- **Run lemma** for a single slot: blocks in the window keep the page invariant. -/
theorem forEach_mapCommonBlock_one {reserved : List Page} (hone : cfg.maxBatchSize = 1)
    (counts : List Nat) (hinv : PageInv cfg reserved s)
    (hpool : counts.length * cfg.pagesPerKvblock ≤ s.pages.length)
    (hvalid : ∀ i, i < counts.length →
      cfg.isValidOffset 0 (cfg.blockOffset 0 (s.mappedPages 0 + i)) = true) :
    PageInv cfg reserved (Outcome.forEach (fun _ => mapCommonBlock cfg) counts s).state := by
  induction counts generalizing s with
  | nil => exact hinv
  | cons c counts ih =>
    rw [List.length_cons, Nat.succ_mul] at hpool
    obtain ⟨pair, s₁, hfirst, hshares⟩ :=
      mapCommonBlock_shares (by omega : cfg.pagesPerKvblock ≤ s.pages.length)
    -- the same turn, seen as the growth of the slot
    obtain ⟨s₂, hgrow, hre⟩ := mapReqPageOne_spec hinv (r := 0) (by omega)
      (hvalid 0 (Nat.succ_pos _)) (by omega)
    rw [← mapCommonBlock_eq hone, hfirst] at hgrow
    cases hgrow
    rw [Outcome.forEach_cons, hfirst, Outcome.andThen_done]
    refine ih hre.inv ?_ fun i hi => ?_
    · rw [hshares.pool, List.length_drop]
      omega
    · rw [hshares.mapped 0 (by omega), Nat.add_right_comm, Nat.add_assoc]
      exact hvalid (i + 1) (Nat.succ_lt_succ hi)

/-- Without slots the pages are taken from the pool and mapped nowhere. -/
theorem forEach_mapCommonPages_zero (hzero : cfg.maxBatchSize = 0) (ls : List Nat)
    (hpool : 2 * ls.length ≤ s.pages.length) :
    Outcome.forEach (mapCommonPages cfg) ls s =
      .done { s with pages := s.pages.drop (2 * ls.length) } := by
  induction ls generalizing s with
  | nil => rfl
  | cons l ls ih =>
    rw [List.length_cons] at hpool
    match hpages : s.pages with
    | [] => simp [hpages] at hpool
    | [_] =>
      simp only [hpages, List.length_singleton] at hpool
      omega
    | kPage :: vPage :: rest =>
      have hrun : mapCommonPages cfg l s = .done { s with pages := rest } := by
        simp [mapCommonPages, hpages, hzero]
      rw [hpages] at hpool
      rw [Outcome.forEach_cons, hrun, Outcome.andThen_done]
      exact ih (by simp only [List.length_cons] at hpool; show _ ≤ rest.length; omega)

theorem forEach_mapCommonBlock_zero (hzero : cfg.maxBatchSize = 0) (counts : List Nat)
    (hpool : counts.length * cfg.pagesPerKvblock ≤ s.pages.length) :
    Outcome.forEach (fun _ => mapCommonBlock cfg) counts s =
      .done { s with pages := s.pages.drop (counts.length * cfg.pagesPerKvblock) } := by
  induction counts generalizing s with
  | nil => simp
  | cons c counts ih =>
    rw [List.length_cons, Nat.succ_mul] at hpool
    have hone : mapCommonBlock cfg s =
        .done { s with pages := s.pages.drop cfg.pagesPerKvblock } := by
      rw [mapCommonBlock, forEach_mapCommonPages_zero hzero _
        (by rw [← cfg.pagesPerKvblock_eq]; omega), ← cfg.pagesPerKvblock_eq, hzero]
      rfl
    rw [Outcome.forEach_cons, hone, Outcome.andThen_done, ih, List.length_cons, Nat.succ_mul,
      List.drop_drop, Nat.add_comm]
    rw [List.length_drop]
    omega

/-- Losing whole blocks of the pool keeps the owners of the other pages if nothing is mapped. -/
theorem PageInv.drop {reserved : List Page} (hzero : cfg.maxBatchSize = 0)
    (h : PageInv cfg reserved s) (n : Nat) :
    PageInv cfg (s.pages.drop (n * cfg.pagesPerKvblock))
      { s with pages := s.pages.drop (n * cfg.pagesPerKvblock) } := by
  have hempty : pagesOf s.pagemap = [] := by
    rw [← List.length_eq_zero_iff, length_pagesOf, h.keys.length_eq, length_mappedKeys, hzero]
    rfl
  refine ⟨?_, h.keys, h.room, ?_⟩
  · show (_ ++ pagesOf s.pagemap).Perm _
    rw [hempty, List.append_nil]
  · rw [List.length_drop]
    exact Nat.dvd_sub h.dvd_length_pool (Nat.dvd_mul_left ..)

/-! ## Layer D: two slots -/

/-- Going from `s` to `s'` gives blocks of slot `r` back. -/
structure Releases (r : Nat) (s s' : State) : Prop where
  pool : ∀ page ∈ s.pages, page ∈ s'.pages
  mapped : ∀ q, q ≠ r → s'.mappedPages q = s.mappedPages q
  lookup : ∀ q off l, q ≠ r → s'.pagemap.lookup (q, off, l) = s.pagemap.lookup (q, off, l)

theorem Releases.refl (r : Nat) (s : State) : Releases r s s :=
  ⟨fun _ => id, fun _ _ => rfl, fun _ _ _ _ => rfl⟩

theorem Releases.trans {r : Nat} (h₁ : Releases r s s₁) (h₂ : Releases r s₁ s₂) :
    Releases r s s₂ where
  pool page hpage := h₂.pool page (h₁.pool page hpage)
  mapped q hq := (h₂.mapped q hq).trans (h₁.mapped q hq)
  lookup q off l hq := (h₂.lookup q off l hq).trans (h₁.lookup q off l hq)

theorem unmapPages_releases (r off layer : Nat) (s : State) :
    Releases r s (unmapPages r off layer s) where
  pool _ hpage := List.mem_cons_of_mem _ (List.mem_cons_of_mem _ hpage)
  mapped _ _ := rfl
  lookup _ _ _ hq := AList.lookup_erase_ne fun heq => hq (congrArg Prod.fst heq)

theorem foldl_unmapPages_releases (r off : Nat) (ls : List Nat) (s : State) :
    Releases r s (ls.foldl (fun s l => unmapPages r off l s) s) := by
  induction ls generalizing s with
  | nil => exact .refl r s
  | cons l ls ih => exact (unmapPages_releases r off l s).trans (ih _)

theorem unmapReqPageOne_releases (r : Nat) (s : State) :
    Releases r s (unmapReqPageOne cfg r s) := by
  have hfold := foldl_unmapPages_releases r (cfg.blockOffset r (s.mappedPages r - 1)) cfg.layers s
  refine ⟨hfold.pool, fun q hq => ?_, hfold.lookup⟩
  exact (Function.update_of_ne hq ..).trans (hfold.mapped q hq)

theorem releaseWhile_releases (r retain n : Nat) (s : State) :
    Releases r s (releaseWhile cfg r retain n s) := by
  induction n generalizing s with
  | zero => exact .refl r s
  | succ n ih =>
    rw [releaseWhile]
    split_ifs
    · exact (unmapReqPageOne_releases r s).trans (ih _)
    · exact .refl r s

/-- Releasing a slot puts the pages of its last block into the pool. -/
theorem releaseKvcachePagesAll_returns {r m : Nat} {pair : Page × Page}
    (hmapped : s.mappedPages r = m + 1)
    (hlookup : s.pagemap.lookup (r, cfg.blockOffset r m, 0) = some pair) :
    pair.1 ∈ (releaseKvcachePagesAll cfg r s).pages := by
  obtain ⟨ls, hlayers, -⟩ := cfg.layers_eq_cons
  rw [releaseKvcachePagesAll, releaseKvcachePagesSome, hmapped, releaseWhile, if_pos (by omega)]
  -- layer 0 of the last block comes first; everything after it only adds to the pool
  refine (releaseWhile_releases r 0 m _).pool _ ?_
  rw [unmapReqPageOne, hmapped, Nat.add_sub_cancel, hlayers, List.foldl_cons]
  refine (foldl_unmapPages_releases r _ ls _).pool _ ?_
  simp [unmapPages, hlookup]

theorem mem_pagesOf_of_lookup {m : PageMap} {key : PageKey} {pair : Page × Page}
    (h : m.lookup key = some pair) : pair.1 ∈ pagesOf m := by
  have hentry : (⟨key, pair⟩ : Sigma fun _ : PageKey => Page × Page) ∈ m.entries :=
    AList.mem_lookup_iff.mp h
  exact List.mem_flatMap.mpr ⟨_, hentry, by simp⟩

/-- Lengths that release slot 1 and keep every other slot. -/
def releaseSecond (r : Nat) : Nat := if r = 1 then 0 else 1

/-- The step that releases slot 1: as long as it has not been visited it shares `pair` with slot 0,
    then the pages are in the pool. -/
structure Releasing (cfg : Config) (pair : Page × Page) (off m : Nat) (rest : List Nat)
    (s : State) : Prop where
  nodup : rest.Nodup
  mapped : ∀ r ∈ rest, 0 < s.mappedPages r
  first : s.pagemap.lookup (0, off, 0) = some pair
  second : 1 ∈ rest → s.mappedPages 1 = m + 1 ∧
    s.pagemap.lookup (1, cfg.blockOffset 1 m, 0) = some pair
  returned : 1 ∉ rest → pair.1 ∈ s.pages

/-- **Step lemma** of that loop. -/
theorem Releasing.step {pair : Page × Page} {off m r : Nat} {rest : List Nat}
    (h : Releasing cfg pair off m (r :: rest) s) :
    (stepSyncSlot cfg releaseSecond true r s).Ensures (Releasing cfg pair off m rest)
      (fun _ _ => False) := by
  obtain ⟨hr, hnodup⟩ := List.nodup_cons.mp h.nodup
  have hpos := h.mapped r List.mem_cons_self
  by_cases hone : r = 1
  · subst hone
    obtain ⟨hmapped, hlookup⟩ := h.second List.mem_cons_self
    have hrun : stepSyncSlot cfg releaseSecond true 1 s =
        .done (releaseKvcachePagesAll cfg 1 (s.setReqSeqLength 1 0)) := by
      have hcond : (s.setReqSeqLength 1 0).mappedPages 1 ≠ 0 := hpos.ne'
      simp [stepSyncSlot, releaseSecond, hcond]
    have hreleases : Releases 1 (s.setReqSeqLength 1 0)
        (releaseKvcachePagesAll cfg 1 (s.setReqSeqLength 1 0)) := releaseWhile_releases ..
    rw [hrun]
    refine ⟨hnodup, fun q hq => ?_, ?_, fun hmem => absurd hmem hr, fun _ => ?_⟩
    · rw [hreleases.mapped q (by rintro rfl; exact hr hq)]
      exact h.mapped q (List.mem_cons_of_mem _ hq)
    · rw [hreleases.lookup 0 off 0 (by decide)]
      exact h.first
    · exact releaseKvcachePagesAll_returns hmapped hlookup
  · -- a length of one token is covered by the block that the slot has
    have henough : cfg.tokensToPages 1 ≤ s.mappedPages r := by
      have hle := cfg.tokensToPages_succ_le 0
      rw [cfg.tokensToPages_zero] at hle
      exact hle.trans hpos
    have hrun : stepSyncSlot cfg releaseSecond true r s = .done (s.setReqSeqLength r 1) := by
      have hcovered : cfg.tokensToPages 1 ≤ (s.setReqSeqLength r 1).mappedPages r := henough
      simp [stepSyncSlot, releaseSecond, hone, mapPagesForCurrStep, hcovered]
    rw [hrun]
    refine ⟨hnodup, fun q hq => h.mapped q (List.mem_cons_of_mem _ hq), h.first,
      fun hmem => h.second (List.mem_cons_of_mem _ hmem), fun hmem => h.returned ?_⟩
    simp [hmem, Ne.symm hone]

/-- **Sharing breaks the pool**: if two slots have the same pages behind their last blocks, a step
    that releases one of them puts pages into the pool that the other one still has. -/
theorem not_staysSound_of_shared {pair : Page × Page} {off m : Nat} (hslots : 1 < cfg.maxBatchSize)
    (hmapped : ∀ r, r < cfg.maxBatchSize → 0 < s.mappedPages r)
    (hfirst : s.pagemap.lookup (0, off, 0) = some pair) (hm : s.mappedPages 1 = m + 1)
    (hsecond : s.pagemap.lookup (1, cfg.blockOffset 1 m, 0) = some pair) :
    ¬ StaysSound cfg s := by
  intro h
  have hstart : Releasing cfg pair off m (List.range cfg.maxBatchSize) s :=
    ⟨List.nodup_range, fun r hr => hmapped r (List.mem_range.mp hr), hfirst,
      fun _ => ⟨hm, hsecond⟩, fun hmem => absurd (List.mem_range.mpr hslots) hmem⟩
  have hend := Outcome.Ensures.forEach (fun _ _ _ => Releasing.step) _ _ hstart
  obtain ⟨hsound, -⟩ := h [.step releaseSecond true]
  have hstate : runCalls cfg [.step releaseSecond true] s =
      (stepSync cfg releaseSecond true s).state := rfl
  rw [hstate] at hsound
  cases hrun : stepSync cfg releaseSecond true s with
  | throw err s' =>
    rw [stepSync] at hrun
    rw [hrun] at hend
    exact hend
  | done s' =>
    rw [hrun] at hsound
    rw [stepSync] at hrun
    rw [hrun] at hend
    exact hsound.unreferenced _ (hend.returned (by simp)) (mem_pagesOf_of_lookup hend.first)

/-! ## Layer E: runs -/

/-- **The condition**: the call maps nothing, or there is a single slot and the blocks lie in its
    window. -/
def SharesSafely (cfg : Config) (numTokens : Nat) (s : State) : Prop :=
  cfg.tokensToPages numTokens = 0 ∨ kvblocksAvailable cfg s (cfg.tokensToPages numTokens) = false ∨
    cfg.maxBatchSize ≤ 1 ∧ ∀ r, r < cfg.maxBatchSize → ∀ i, i < cfg.tokensToPages numTokens →
      cfg.isValidOffset r (cfg.blockOffset r (s.mappedPages r + i)) = true

theorem Owned.mapCommonPagesInBatch {numTokens : Nat} (h : Owned cfg s)
    (hsafe : SharesSafely cfg numTokens s) :
    Owned cfg (mapCommonPagesInBatch cfg numTokens s).state := by
  unfold Allocator.mapCommonPagesInBatch
  dsimp only
  split_ifs with hnone hfull
  · exact h
  · exact h
  obtain ⟨reserved, hnodup, hinv⟩ := h
  have havail : kvblocksAvailable cfg s (cfg.tokensToPages numTokens) = true := by
    simpa using hfull
  have hpool : (List.range (cfg.tokensToPages numTokens)).length * cfg.pagesPerKvblock ≤
      s.pages.length := by
    rw [List.length_range]
    exact kvblocksAvailable_pool havail
  rcases hsafe with hzero | hlacks | ⟨hslots, hvalid⟩
  · exact absurd hzero hnone
  · rw [havail] at hlacks
    cases hlacks
  rcases Nat.le_one_iff_eq_zero_or_eq_one.mp hslots with hzero | hone
  · rw [forEach_mapCommonBlock_zero hzero _ hpool]
    refine ⟨_, ?_, hinv.drop hzero _⟩
    exact (List.drop_sublist _ _).nodup (hinv.sound hnodup).nodup
  · refine ⟨reserved, hnodup, forEach_mapCommonBlock_one hone _ hinv hpool fun i hi => ?_⟩
    exact hvalid 0 (by omega) i (by simpa using hi)

theorem sharesSafely_of_staysSound {numTokens : Nat}
    (h : StaysSound cfg (mapCommonPagesInBatch cfg numTokens s).state) :
    SharesSafely cfg numTokens s := by
  by_contra hunsafe
  simp only [SharesSafely, not_or, not_and] at hunsafe
  obtain ⟨hnone, havail, hrest⟩ := hunsafe
  rw [Bool.not_eq_false] at havail
  have hpool := kvblocksAvailable_pool havail
  obtain ⟨s', hrun, hblocks⟩ := forEach_mapCommonBlock_shares
    (List.range (cfg.tokensToPages numTokens)) (by rw [List.length_range]; exact hpool)
  rw [List.length_range] at hblocks
  have hcall : mapCommonPagesInBatch cfg numTokens s = .done s' := by
    simp only [mapCommonPagesInBatch, if_neg hnone, havail, Bool.not_true, Bool.false_eq_true,
      if_false, hrun]
  rw [hcall, Outcome.state_done] at h
  by_cases hslots : cfg.maxBatchSize ≤ 1
  · -- a block behind the window of the only slot
    obtain ⟨r, hr, i, hi, hinvalid⟩ : ∃ r, r < cfg.maxBatchSize ∧ ∃ i,
        i < cfg.tokensToPages numTokens ∧
        cfg.isValidOffset r (cfg.blockOffset r (s.mappedPages r + i)) ≠ true := by
      simpa only [not_forall, exists_prop] using hrest hslots
    obtain rfl : r = 0 := by omega
    have hmem := AList.lookup_isSome.mp (hblocks.entered 0 hr i hi)
    have hlt := (h []).1.offsets _ _ _ hmem
    refine hinvalid (decide_eq_true ?_)
    rw [Nat.zero_add, Nat.one_mul] at hlt ⊢
    rwa [Nat.mod_eq_of_lt cfg.virtBuffSizePerReq_lt]
  · have hpos := Nat.pos_of_ne_zero hnone
    obtain ⟨pair, hlast⟩ := hblocks.last hpos
    refine not_staysSound_of_shared (by omega) (fun r hr => ?_) (hlast 0 (by omega)) ?_
      (hlast 1 (by omega)) h
    · rw [hblocks.mapped r hr]
      omega
    · rw [hblocks.mapped 1 (by omega)]
      omega

/-- The calls of the API with `map_common_pages`. -/
inductive SharingCall where
  | call (c : Call)
  | mapCommonPages (numTokens : Nat)

def SharingCall.exec (cfg : Config) (c : SharingCall) (s : State) : Result :=
  match c with
  | .call c => c.exec cfg s
  | .mapCommonPages numTokens => mapCommonPagesInBatch cfg numTokens s

/-- The condition on a call. -/
def SharingCall.Safe (cfg : Config) (s : State) : SharingCall → Prop
  | .call _ => True
  | .mapCommonPages numTokens => SharesSafely cfg numTokens s

/-- States that calls reach from the reserved pages, every one of them meeting the condition.  A
    call that throws leaves its partial effect behind. -/
def SharingReaches (cfg : Config) (newPage : Nat → Page) (freeMemory : Nat) : State → Prop :=
  Reaches (fun (c : SharingCall) s => (.ok (c.exec cfg s).state : Except AllocError State))
    (· = reservePhysicalPages cfg newPage freeMemory State.init) (fun s c => c.Safe cfg s)

theorem SharingReaches.owned {newPage : Nat → Page} {freeMemory : Nat}
    (hnew : Function.Injective newPage) (h : SharingReaches cfg newPage freeMemory s) :
    Owned cfg s := by
  refine Reaches.invariant (Owned cfg) ?_ ?_ h
  · rintro _ rfl
    refine ⟨_, ?_, reservePhysicalPages_inv ..⟩
    simpa [reservePhysicalPages, State.init] using List.nodup_range.map hnew
  · intro s c s' hs hsafe hexec
    cases hexec
    cases c with
    | call c => exact hs.call c
    | mapCommonPages numTokens => exact hs.mapCommonPagesInBatch hsafe

/-- **When sharing keeps the pool sound**: the driver gives out distinct pages.  In every state that
    is reached by calls whose `map_common_pages` meet the condition, a further `map_common_pages`
    keeps the pool sound, whatever calls and `cleanup` follow, exactly if it meets the condition. -/
theorem map_common_pages_sound_iff (cfg : Config) (newPage : Nat → Page)
    (hnew : Function.Injective newPage) (freeMemory : Nat) {s : State}
    (hreach : SharingReaches cfg newPage freeMemory s) (numTokens : Nat) :
    StaysSound cfg (mapCommonPagesInBatch cfg numTokens s).state ↔
      SharesSafely cfg numTokens s :=
  ⟨sharesSafely_of_staysSound, fun hsafe =>
    ((hreach.owned hnew).mapCommonPagesInBatch hsafe).staysSound⟩

/-- A single slot of two pages. -/
def oneSlot : Config := { twoSlots with maxBatchSize := 1 }

/-- A single slot with a request of one page gets its second page from `map_common_pages`. -/
theorem oneSlot_sharing_sound :
    let s := (stepSync oneSlot (fun _ => 1) true
      (reservePhysicalPages oneSlot id (4 * 65536) State.init)).state
    s.mappedPages 0 = 1 ∧ StaysSound oneSlot (mapCommonPagesInBatch oneSlot 2 s).state := by
  intro s
  have hreach : SharingReaches oneSlot id (4 * 65536) s :=
    .next (a := .call (.step (fun _ => 1) true)) (.init rfl) trivial rfl
  have hsafe : SharesSafely oneSlot 2 s := .inr (.inr ⟨by decide, by decide +kernel⟩)
  exact ⟨by decide +kernel,
    (map_common_pages_sound_iff oneSlot id Function.injective_id _ hreach 2).mpr hsafe⟩

/-- Two slots share a page, and a step that ends the request of slot 1 gives it back: the pool then
    holds pages 2 and 3, which are still behind the block of slot 0. -/
theorem twoSlots_sharing_unsound :
    let s := (mapCommonPagesInBatch twoSlots 1
      (reservePhysicalPages twoSlots id (4 * 65536) State.init)).state
    let s' := runCalls twoSlots [.step releaseSecond true] s
    s'.pages = [2, 3, 1, 0] ∧ pagesOf s'.pagemap = [3, 2] ∧ ¬ Sound twoSlots s' ∧
      ¬ StaysSound twoSlots s := by
  intro s s'
  have hpages : s'.pages = [2, 3, 1, 0] := by decide +kernel
  have hmap : pagesOf s'.pagemap = [3, 2] := by decide +kernel
  have hunsound : ¬ Sound twoSlots s' := by
    intro h
    refine h.unreferenced 2 ?_ ?_
    · simp [hpages]
    · simp [hmap]
  exact ⟨hpages, hmap, hunsound, fun h => hunsound (h [.step releaseSecond true]).1⟩

end VAttention.Allocator
