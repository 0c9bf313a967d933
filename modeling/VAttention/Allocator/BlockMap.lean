import Mathlib.Order.Basic
import Mathlib.Order.Lattice
import VAttention.Allocator.State
import VAttention.Lib.Lists

/-!
# Blocks, their keys and their pages

A block of a request slot is backed by two pages in every separately mapped layer.  This
module says which pagemap keys a vector of block counts accounts for, shows that the
`u64` offsets of the blocks of a slot do not collide, and gives the effect of mapping and
unmapping one block on the pool and the pagemap.
-/

namespace VAttention.Allocator

open VAttention.Lib

/-! ## Block offsets and the room of a slot -/

section Arithmetic

variable (cfg : Config)

theorem u64Size_pos : 0 < u64Size := Nat.two_pow_pos 64

theorem Config.pageSize_pos : 0 < cfg.pageSize :=
  Nat.pos_of_dvd_of_pos cfg.pageSize_dvd u64Size_pos

theorem Config.virtBuffSizePerReq_lt : cfg.virtBuffSizePerReq < u64Size :=
  Nat.mod_lt _ u64Size_pos

theorem Config.pageSize_dvd_virtBuffSizePerReq : cfg.pageSize ∣ cfg.virtBuffSizePerReq :=
  (Nat.dvd_mod_iff cfg.pageSize_dvd).mpr (Nat.dvd_mul_left ..)

theorem Config.virtBuffSizePerReq_le : cfg.virtBuffSizePerReq ≤ cfg.maxPagesPerReq * cfg.pageSize :=
  Nat.mod_le ..

theorem Config.layers_nodup : cfg.layers.Nodup := by
  unfold Config.layers
  split
  · exact List.nodup_singleton 0
  · exact List.nodup_range

theorem Config.pagesPerKvblock_eq : cfg.pagesPerKvblock = 2 * cfg.layers.length := by
  unfold Config.pagesPerKvblock Config.layers Config.numCacheComponents
  split <;> simp

theorem Config.pagesPerKvblock_pos : 0 < cfg.pagesPerKvblock := by
  unfold Config.pagesPerKvblock Config.numCacheComponents
  have := cfg.numLayers_pos
  split <;> omega

/-- A modular sum that exceeds its first summand has not wrapped around. -/
private theorem add_mod_eq_add_of_lt {U b v : Nat} (hb : b < U) (hv : v < U)
    (h : b < (b + v) % U) : (b + v) % U = b + v := by
  by_cases hover : b + v < U
  · exact Nat.mod_eq_of_lt hover
  · rw [Nat.mod_eq_sub_mod (by omega), Nat.mod_eq_of_lt (by omega)] at h
    omega

/-- Slot `r` has room for `m` mapped blocks: its window does not wrap around and its last
    mapped block starts inside it. -/
def Config.SlotRoom (r m : Nat) : Prop :=
  m = 0 ∨
    r * cfg.virtBuffSizePerReq % u64Size + cfg.virtBuffSizePerReq =
        (r + 1) * cfg.virtBuffSizePerReq % u64Size ∧
      m * cfg.pageSize ≤ cfg.virtBuffSizePerReq

variable {cfg}

theorem Config.SlotRoom.mono {r m n : Nat} (h : cfg.SlotRoom r m) (hn : n ≤ m) :
    cfg.SlotRoom r n := by
  rcases h with rfl | ⟨hwin, hm⟩
  · exact .inl (Nat.le_zero.mp hn)
  · exact .inr ⟨hwin, (Nat.mul_le_mul_right _ hn).trans hm⟩

theorem Config.SlotRoom.le_maxPagesPerReq {r m : Nat} (h : cfg.SlotRoom r m) :
    m ≤ cfg.maxPagesPerReq := by
  rcases h with rfl | ⟨-, hm⟩
  · exact Nat.zero_le _
  · exact Nat.le_of_mul_le_mul_right (hm.trans cfg.virtBuffSizePerReq_le) cfg.pageSize_pos

/-- Inside the room of a slot the offsets are the mathematical ones. -/
theorem Config.SlotRoom.blockOffset_eq {r m i : Nat} (h : cfg.SlotRoom r m) (hi : i < m) :
    cfg.blockOffset r i = r * cfg.virtBuffSizePerReq % u64Size + i * cfg.pageSize := by
  rcases h with rfl | ⟨hwin, hm⟩
  · cases hi
  -- the block lies before the end of the window, which is below `2 ^ 64`
  have hend : (r + 1) * cfg.virtBuffSizePerReq % u64Size < u64Size := Nat.mod_lt _ u64Size_pos
  have hi' : i * cfg.pageSize ≤ m * cfg.pageSize := Nat.mul_le_mul_right _ hi.le
  rw [Config.blockOffset, ← Nat.mod_add_mod, Nat.mod_eq_of_lt (by omega)]

theorem Config.SlotRoom.blockOffset_inj {r m i j : Nat} (h : cfg.SlotRoom r m) (hi : i < m)
    (hj : j < m) (heq : cfg.blockOffset r i = cfg.blockOffset r j) : i = j := by
  rw [h.blockOffset_eq hi, h.blockOffset_eq hj] at heq
  exact Nat.eq_of_mul_eq_mul_right cfg.pageSize_pos (by omega)

/-- The blocks a slot has room for pass the check of `is_valid_offset`. -/
theorem Config.SlotRoom.isValidOffset {r m i : Nat} (h : cfg.SlotRoom r m) (hi : i < m) :
    cfg.isValidOffset r (cfg.blockOffset r i) = true := by
  rw [Config.isValidOffset, h.blockOffset_eq hi, decide_eq_true_eq]
  rcases h with rfl | ⟨hwin, hm⟩
  · cases hi
  have hblock : i * cfg.pageSize < m * cfg.pageSize :=
    Nat.mul_lt_mul_of_pos_right hi cfg.pageSize_pos
  omega

/-- The check of `is_valid_offset` is what gives a slot room for one more block. -/
theorem Config.SlotRoom.succ {r m : Nat} (h : cfg.SlotRoom r m)
    (hvalid : cfg.isValidOffset r (cfg.blockOffset r m) = true) : cfg.SlotRoom r (m + 1) := by
  have hlt : cfg.blockOffset r m < (r + 1) * cfg.virtBuffSizePerReq % u64Size := by
    simpa [Config.isValidOffset] using hvalid
  have hend : (r + 1) * cfg.virtBuffSizePerReq % u64Size < u64Size := Nat.mod_lt _ u64Size_pos
  have hV := cfg.virtBuffSizePerReq_lt
  have hoff : cfg.blockOffset r m =
      (r * cfg.virtBuffSizePerReq % u64Size + m * cfg.pageSize) % u64Size := by
    rw [Config.blockOffset, Nat.mod_add_mod]
  -- the window of the slot ends at its begin plus its size, or wraps
  have hnext : (r + 1) * cfg.virtBuffSizePerReq % u64Size =
      (r * cfg.virtBuffSizePerReq % u64Size + cfg.virtBuffSizePerReq) % u64Size := by
    rw [Nat.mod_add_mod, Nat.succ_mul]
  obtain ⟨k, hk⟩ := cfg.pageSize_dvd_virtBuffSizePerReq
  have hwin : r * cfg.virtBuffSizePerReq % u64Size + cfg.virtBuffSizePerReq =
      (r + 1) * cfg.virtBuffSizePerReq % u64Size := by
    rcases h with rfl | ⟨hwin, -⟩
    · -- the first block: an end below the begin would make the check fail
      have hb : r * cfg.virtBuffSizePerReq % u64Size < u64Size := Nat.mod_lt _ u64Size_pos
      rw [hoff, Nat.zero_mul, Nat.add_zero, Nat.mod_eq_of_lt hb, hnext] at hlt
      rw [hnext, add_mod_eq_add_of_lt hb hV hlt]
    · exact hwin
  have hm : m * cfg.pageSize ≤ cfg.virtBuffSizePerReq := by
    rcases h with rfl | ⟨-, hm⟩
    · omega
    · exact hm
  rw [hoff, Nat.mod_eq_of_lt (by omega)] at hlt
  -- strictly below a multiple of the page size leaves room for a whole page
  have hmk : m < k := by
    refine Nat.lt_of_mul_lt_mul_left (a := cfg.pageSize) ?_
    rw [← hk, Nat.mul_comm]
    omega
  refine .inr ⟨hwin, ?_⟩
  rw [hk, Nat.mul_comm]
  exact Nat.mul_le_mul_left _ hmk

end Arithmetic

/-! ## Keys -/

variable (cfg : Config)

/-- Keys of block `i` of slot `r`, one for each separately mapped layer. -/
def blockKeys (r i : Nat) : List PageKey :=
  cfg.layers.map fun layer => (r, cfg.blockOffset r i, layer)

/-- Keys of the first `m` blocks of slot `r`. -/
def slotKeys (r m : Nat) : List PageKey := (List.range m).flatMap (blockKeys cfg r)

/-- The keys that the counters `mapped_pages` account for. -/
def mappedKeys (mapped : Nat → Nat) : List PageKey :=
  (List.range cfg.maxBatchSize).flatMap fun r => slotKeys cfg r (mapped r)

variable {cfg}

theorem slotKeys_succ (r m : Nat) :
    slotKeys cfg r (m + 1) = slotKeys cfg r m ++ blockKeys cfg r m := by
  simp [slotKeys, List.range_succ]

theorem mem_mappedKeys {mapped : Nat → Nat} {key : PageKey} :
    key ∈ mappedKeys cfg mapped ↔
      ∃ r i layer, r < cfg.maxBatchSize ∧ i < mapped r ∧ layer ∈ cfg.layers ∧
        key = (r, cfg.blockOffset r i, layer) := by
  simp only [mappedKeys, slotKeys, blockKeys, List.mem_flatMap, List.mem_range, List.mem_map]
  constructor
  · rintro ⟨r, hr, i, hi, layer, hl, rfl⟩
    exact ⟨r, i, layer, hr, hi, hl, rfl⟩
  · rintro ⟨r, i, layer, hr, hi, hl, rfl⟩
    exact ⟨r, hr, i, hi, layer, hl, rfl⟩

/-- Counting one more block of a slot adds that block's keys. -/
theorem mappedKeys_succ {f g : Nat → Nat} {r : Nat} (hr : r < cfg.maxBatchSize)
    (hgr : g r = f r + 1) (hne : ∀ q, q ≠ r → g q = f q) :
    (mappedKeys cfg g).Perm (blockKeys cfg r (f r) ++ mappedKeys cfg f) := by
  refine flatMap_perm_append_of_eq_of_ne List.nodup_range (List.mem_range.mpr hr) ?_ ?_
  · rw [hgr, slotKeys_succ]
    exact List.perm_append_comm
  · intro q _ hq
    rw [hne q hq]

theorem length_mappedKeys (mapped : Nat → Nat) :
    (mappedKeys cfg mapped).length =
      cfg.layers.length * ((List.range cfg.maxBatchSize).map mapped).sum := by
  have hslot : ∀ r, (slotKeys cfg r (mapped r)).length = cfg.layers.length * mapped r := by
    intro r
    simp [slotKeys, blockKeys, List.length_flatMap, Nat.mul_comm]
  simp only [mappedKeys, List.length_flatMap, hslot]
  induction List.range cfg.maxBatchSize with
  | nil => rfl
  | cons r rs ih => simp [ih, Nat.mul_add]

/-! ## Mapping and unmapping a list of layers -/

/-- All pages stored in the pagemap. -/
def pagesOf (m : PageMap) : List Page := m.entries.flatMap fun e => [e.2.1, e.2.2]

theorem pagesOf_insert {m : PageMap} {key : PageKey} {pair : Page × Page} (hkey : key ∉ m) :
    pagesOf (m.insert key pair) = pair.1 :: pair.2 :: pagesOf m := by
  rw [pagesOf, AList.entries_insert_of_notMem hkey]
  rfl

theorem length_pagesOf (m : PageMap) : (pagesOf m).length = 2 * m.keys.length := by
  simp [pagesOf, AList.keys, List.keys, Nat.mul_comm]

/-- Going from `s` to `s'` adds entries for the keys `ks`, the pages coming from the pool;
    read backwards it removes them.  Counters and lengths are not touched. -/
structure MapsKeys (ks : List PageKey) (s s' : State) : Prop where
  conserved : (s'.pages ++ pagesOf s'.pagemap).Perm (s.pages ++ pagesOf s.pagemap)
  keys : s'.pagemap.keys.Perm (ks ++ s.pagemap.keys)
  mapped : s'.mappedPages = s.mappedPages
  lengths : s'.currSeqLengths = s.currSeqLengths
  deferred : s'.deferredReclaim = s.deferredReclaim

theorem MapsKeys.refl (s : State) : MapsKeys [] s s :=
  ⟨.refl _, .refl _, rfl, rfl, rfl⟩

theorem MapsKeys.trans {ks₁ ks₂ : List PageKey} {s₀ s₁ s₂ : State} (h₁ : MapsKeys ks₁ s₀ s₁)
    (h₂ : MapsKeys ks₂ s₁ s₂) : MapsKeys (ks₁ ++ ks₂) s₀ s₂ where
  conserved := h₂.conserved.trans h₁.conserved
  keys := by
    refine h₂.keys.trans ?_
    rw [List.append_assoc]
    refine (h₁.keys.append_left ks₂).trans ?_
    simpa only [List.append_assoc] using List.perm_append_comm.append_right s₀.pagemap.keys
  mapped := h₂.mapped.trans h₁.mapped
  lengths := h₂.lengths.trans h₁.lengths
  deferred := h₂.deferred.trans h₁.deferred

/-- `MAP_PAGES` for every layer of a list, given enough pages and unused keys. -/
theorem forEach_mapPages (r off : Nat) (ls : List Nat) (s : State) (hnd : ls.Nodup)
    (hpool : 2 * ls.length ≤ s.pages.length) (hfresh : ∀ l ∈ ls, (r, off, l) ∉ s.pagemap) :
    ∃ s', Outcome.forEach (fun l => mapPages r off l) ls s = .done s' ∧
      MapsKeys (ls.map fun l => (r, off, l)) s s' := by
  -- one layer at a time: each takes two pages from the front of the pool
  induction ls generalizing s with
  | nil => exact ⟨s, rfl, .refl s⟩
  | cons l ls ih =>
    obtain ⟨hl, hnd'⟩ := List.nodup_cons.mp hnd
    obtain ⟨k, v, rest, hpages⟩ : ∃ k v rest, s.pages = k :: v :: rest := by
      match hp : s.pages with
      | k :: v :: rest => exact ⟨k, v, rest, rfl⟩
      | [_] => simp [hp] at hpool; omega
      | [] => simp [hp] at hpool
    have hkey : (r, off, l) ∉ s.pagemap := hfresh l List.mem_cons_self
    -- the state after the first layer
    let s₁ : State :=
      { s with pages := rest, pagemap := s.pagemap.insert (r, off, l) (k, v) }
    have hfirst : MapsKeys [(r, off, l)] s s₁ := by
      refine ⟨?_, ?_, rfl, rfl, rfl⟩
      · show (rest ++ pagesOf (s.pagemap.insert (r, off, l) (k, v))).Perm _
        rw [pagesOf_insert hkey, hpages]
        exact (List.perm_middle.trans (List.perm_middle.cons k))
      · show (s.pagemap.insert (r, off, l) (k, v)).keys.Perm _
        rw [AList.insert_of_notMem hkey]
        exact .refl _
    -- the other layers have other keys, so these are still unused
    obtain ⟨s', hrun, hmaps⟩ := ih s₁ hnd'
      (by simp only [hpages, List.length_cons] at hpool; show 2 * ls.length ≤ rest.length; omega)
      (by
        intro l' hl' hmem
        rcases (AList.mem_insert _).mp hmem with heq | hold
        · cases heq
          exact hl hl'
        · exact hfresh l' (List.mem_cons_of_mem _ hl') hold)
    refine ⟨s', ?_, hfirst.trans hmaps⟩
    simp only [Outcome.forEach_cons, mapPages, hpages, Outcome.andThen_done]
    exact hrun

/-- `UNMAP_PAGES` for every layer of a list of mapped ones undoes such a mapping. -/
theorem foldl_unmapPages (r off : Nat) (ls : List Nat) (s : State) (hnd : ls.Nodup)
    (hmapped : ∀ l ∈ ls, (r, off, l) ∈ s.pagemap) :
    MapsKeys (ls.map fun l => (r, off, l))
      (ls.foldl (fun s l => unmapPages r off l s) s) s := by
  induction ls generalizing s with
  | nil => exact .refl s
  | cons l ls ih =>
    obtain ⟨hl, hnd'⟩ := List.nodup_cons.mp hnd
    have hkey : (r, off, l) ∈ s.pagemap := hmapped l List.mem_cons_self
    obtain ⟨pair, hlookup, hentries⟩ := exists_lookup_perm_cons_erase s.pagemap hkey
    have hfirst : MapsKeys [(r, off, l)] (unmapPages r off l s) s := by
      refine ⟨?_, ?_, rfl, rfl, rfl⟩
      · -- the entry's two pages move from the pagemap to the pool
        have hpages : (pagesOf s.pagemap).Perm
            (pair.1 :: pair.2 :: pagesOf (s.pagemap.erase (r, off, l))) :=
          (hentries.flatMap_right _).trans (by simp [pagesOf])
        simp only [unmapPages, hlookup, Option.getD_some, List.cons_append]
        refine (hpages.append_left _).trans ?_
        refine (List.perm_middle.trans (List.perm_middle.cons pair.1)).trans ?_
        exact List.Perm.swap ..
      · exact hentries.map Sigma.fst
    -- erasing one key leaves those of the other layers
    have hrest := ih (unmapPages r off l s) hnd' (by
      intro l' hl'
      refine AList.mem_erase.mpr ⟨?_, hmapped l' (List.mem_cons_of_mem _ hl')⟩
      rintro heq
      cases heq
      exact hl hl')
    -- `MapsKeys` is read backwards, so the order of the two parts is turned round
    have hboth := hrest.trans hfirst
    refine ⟨hboth.conserved, hboth.keys.trans ?_, hboth.mapped, hboth.lengths, hboth.deferred⟩
    exact List.perm_append_comm.append_right _

end VAttention.Allocator
