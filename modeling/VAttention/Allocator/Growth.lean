import VAttention.Allocator.BestFit

/-!
# Synchronous growth

`grow_kvcache_phys` has two ways to fail.  It throws before it maps anything if the pool lacks the
blocks.  At the end of the slot's window `is_valid_offset` builds an exception, does not throw
it, and reports the failure by its result; the loop then returns as it does for the background
thread.  Growth is all or nothing exactly if the second failure cannot happen.
-/

namespace VAttention.Allocator

open VAttention.Lib

variable {cfg : Config} {r m n : Nat} {s s₁ s₂ : State}

/-! ## What mapping blocks does to any state -/

/-- `s'` has entries for the keys `ks` besides those of `s`, with pages from the front of the
    pool. -/
structure Takes (ks : List PageKey) (s s' : State) : Prop where
  pool : s'.pages = s.pages.drop (2 * ks.length)
  mem : ∀ key, key ∈ s'.pagemap ↔ key ∈ s.pagemap ∨ key ∈ ks
  kept : ∀ key, key ∉ ks → s'.pagemap.lookup key = s.pagemap.lookup key
  mapped : s'.mappedPages = s.mappedPages
  lengths : s'.currSeqLengths = s.currSeqLengths

theorem Takes.refl (s : State) : Takes [] s s :=
  ⟨by simp, by simp, fun _ _ => rfl, rfl, rfl⟩

theorem Takes.trans {ks ls : List PageKey} (h₁ : Takes ks s s₁) (h₂ : Takes ls s₁ s₂) :
    Takes (ks ++ ls) s s₂ where
  pool := by
    rw [h₂.pool, h₁.pool, List.drop_drop, List.length_append, Nat.mul_add]
  mem key := by
    rw [h₂.mem, h₁.mem, List.mem_append, or_assoc]
  kept key hkey := by
    rw [List.mem_append, not_or] at hkey
    rw [h₂.kept key hkey.2, h₁.kept key hkey.1]
  mapped := h₂.mapped.trans h₁.mapped
  lengths := h₂.lengths.trans h₁.lengths

/-- `MAP_PAGES` with two pages in the pool. -/
theorem mapPages_takes (r off layer : Nat) (hpool : 2 ≤ s.pages.length) :
    ∃ s', mapPages r off layer s = .done s' ∧ Takes [(r, off, layer)] s s' := by
  match hpages : s.pages with
  | [] => simp [hpages] at hpool
  | [_] => simp [hpages] at hpool
  | kPage :: vPage :: rest =>
    have hrun : mapPages r off layer s = .done
        { s with pages := rest, pagemap := s.pagemap.insert (r, off, layer) (kPage, vPage) } := by
      simp only [mapPages, hpages]
    refine ⟨_, hrun, ?_, fun key => ?_, fun key hkey => ?_, rfl, rfl⟩
    · simp [hpages]
    · rw [AList.mem_insert, List.mem_singleton]
      exact or_comm
    · exact AList.lookup_insert_ne fun heq => hkey (List.mem_singleton.mpr heq)

/-- `MAP_PAGES` in every layer of a list. -/
theorem forEach_mapPages_takes (r off : Nat) (ls : List Nat)
    (hpool : 2 * ls.length ≤ s.pages.length) :
    ∃ s', Outcome.forEach (fun l => mapPages r off l) ls s = .done s' ∧
      Takes (ls.map fun l => (r, off, l)) s s' := by
  induction ls generalizing s with
  | nil => exact ⟨s, rfl, .refl s⟩
  | cons l ls ih =>
    rw [List.length_cons] at hpool
    obtain ⟨s₁, hfirst, htakes₁⟩ := mapPages_takes r off l (by omega : 2 ≤ s.pages.length)
    have hlen : s₁.pages.length = s.pages.length - 2 := by
      rw [htakes₁.pool, List.length_drop, List.length_singleton]
    obtain ⟨s', hrest, htakes⟩ := ih (s := s₁) (by omega)
    refine ⟨s', ?_, htakes₁.trans htakes⟩
    rw [Outcome.forEach_cons, hfirst, Outcome.andThen_done, hrest]

/-- `s'` has `n` more blocks of slot `r` than `s`, and differs in nothing else. -/
structure Grown (cfg : Config) (r n : Nat) (s s' : State) : Prop where
  mapped : s'.mappedPages = Function.update s.mappedPages r (s.mappedPages r + n)
  pool : s'.pages = s.pages.drop (n * cfg.pagesPerKvblock)
  mem : ∀ key, key ∈ s'.pagemap ↔
    key ∈ s.pagemap ∨ ∃ i < n, key ∈ blockKeys cfg r (s.mappedPages r + i)
  kept : ∀ key, (∀ i < n, key ∉ blockKeys cfg r (s.mappedPages r + i)) →
    s'.pagemap.lookup key = s.pagemap.lookup key
  lengths : s'.currSeqLengths = s.currSeqLengths

theorem Grown.refl (cfg : Config) (r : Nat) (s : State) : Grown cfg r 0 s s where
  mapped := by rw [Nat.add_zero, Function.update_eq_self]
  pool := by simp
  mem := by simp
  kept _ _ := rfl
  lengths := rfl

theorem Grown.mapped_self (h : Grown cfg r n s s₁) : s₁.mappedPages r = s.mappedPages r + n := by
  rw [h.mapped, Function.update_self]

theorem Grown.trans (h₁ : Grown cfg r m s s₁) (h₂ : Grown cfg r n s₁ s₂) :
    Grown cfg r (m + n) s s₂ where
  mapped := by
    rw [h₂.mapped, h₁.mapped_self, h₁.mapped, Function.update_idem, Nat.add_assoc]
  pool := by
    rw [h₂.pool, h₁.pool, List.drop_drop, Nat.add_mul]
  mem key := by
    rw [h₂.mem, h₁.mem, h₁.mapped_self, or_assoc]
    -- the blocks of the second growth follow those of the first
    refine or_congr_right ⟨?_, ?_⟩
    · rintro (⟨i, hi, hkey⟩ | ⟨i, hi, hkey⟩)
      · exact ⟨i, by omega, hkey⟩
      · exact ⟨m + i, by omega, by rwa [← Nat.add_assoc]⟩
    · rintro ⟨i, hi, hkey⟩
      by_cases hlt : i < m
      · exact .inl ⟨i, hlt, hkey⟩
      · refine .inr ⟨i - m, by omega, ?_⟩
        rwa [show s.mappedPages r + m + (i - m) = s.mappedPages r + i by omega]
  kept key hkey := by
    rw [h₂.kept key, h₁.kept key]
    · exact fun i hi => hkey i (by omega)
    · intro i hi
      rw [h₁.mapped_self, Nat.add_assoc]
      exact hkey (m + i) (by omega)
  lengths := h₂.lengths.trans h₁.lengths

/-- One turn of the growth loop, with a block in the pool. -/
theorem mapReqPageOne_grown (r : Nat) (hpool : cfg.pagesPerKvblock ≤ s.pages.length) :
    ∃ s', mapReqPageOne cfg r s = .done s' ∧ Grown cfg r 1 s s' := by
  rw [cfg.pagesPerKvblock_eq] at hpool
  obtain ⟨s₁, hrun, htakes⟩ :=
    forEach_mapPages_takes r (cfg.blockOffset r (s.mappedPages r)) cfg.layers hpool
  refine ⟨_, by rw [mapReqPageOne, hrun, Outcome.andThen_done], ?_⟩
  constructor
  case mapped =>
    show Function.update s₁.mappedPages r (s₁.mappedPages r + 1) = _
    rw [htakes.mapped]
  case pool =>
    show s₁.pages = _
    rw [htakes.pool, List.length_map, Nat.one_mul, cfg.pagesPerKvblock_eq]
  case mem =>
    intro key
    rw [show (∃ i < 1, key ∈ blockKeys cfg r (s.mappedPages r + i)) ↔
      key ∈ blockKeys cfg r (s.mappedPages r) by simp]
    exact htakes.mem key
  case kept =>
    intro key hkey
    exact htakes.kept key (hkey 0 Nat.one_pos)
  case lengths => exact htakes.lengths

/-- **Run lemma** of the growth loop: from any state, it maps the blocks up to the first one whose
    offset is not valid. -/
theorem growLoop_grown (hpool : n * cfg.pagesPerKvblock ≤ s.pages.length) :
    ∃ s' m, growLoop cfg r n s = .done s' ∧ Grown cfg r m s s' ∧
      (∀ i < m, cfg.isValidOffset r (cfg.blockOffset r (s.mappedPages r + i)) = true) ∧
      (m = n ∨
        m < n ∧ cfg.isValidOffset r (cfg.blockOffset r (s.mappedPages r + m)) = false) := by
  induction n generalizing s with
  | zero => exact ⟨s, 0, rfl, .refl cfg r s, by simp, .inl rfl⟩
  | succ n ih =>
    rw [Nat.succ_mul] at hpool
    rw [growLoop]
    split_ifs with hvalid
    · have hblock : cfg.pagesPerKvblock ≤ s.pages.length := by omega
      obtain ⟨s₁, hone, hgrown₁⟩ := mapReqPageOne_grown r hblock
      have hlen : s₁.pages.length = s.pages.length - cfg.pagesPerKvblock := by
        rw [hgrown₁.pool, List.length_drop, Nat.one_mul]
      obtain ⟨s', m, hrun, hgrown, hvalids, hend⟩ := ih (s := s₁) (by omega)
      rw [hgrown₁.mapped_self] at hvalids hend
      refine ⟨s', 1 + m, ?_, hgrown₁.trans hgrown, ?_, ?_⟩
      · rw [hone, Outcome.andThen_done, hrun]
      · rintro (_ | i) hi
        · exact hvalid
        · rw [Nat.add_comm i, ← Nat.add_assoc]
          exact hvalids i (by omega)
      · rcases hend with rfl | ⟨hlt, hinvalid⟩
        · exact .inl (Nat.add_comm ..)
        · rw [Nat.add_assoc] at hinvalid
          exact .inr ⟨by omega, hinvalid⟩
    · exact ⟨s, 0, rfl, .refl cfg r s, by simp, .inr ⟨Nat.succ_pos n, by simpa using hvalid⟩⟩

/-! ## All or nothing -/

/-- Synchronous growth maps all the blocks, or throws and leaves pool, pagemap and counters as
    they were. -/
def AllOrNothing (cfg : Config) (r numBlocks : Nat) (s : State) : Prop :=
  (growKvcachePhys cfg r numBlocks true s).Ensures (Grown cfg r numBlocks s) fun _ s' =>
    s'.pages = s.pages ∧ s'.pagemap = s.pagemap ∧ s'.mappedPages = s.mappedPages

/-- **When growth is all or nothing**: from any state and for any slot and demand, exactly if the
    pool lacks the blocks or the slot's window has room for all of them. -/
theorem growth_all_or_nothing_iff (cfg : Config) (r numBlocks : Nat) (s : State) :
    AllOrNothing cfg r numBlocks s ↔
      kvblocksAvailable cfg s numBlocks = false ∨
        ∀ i < numBlocks,
          cfg.isValidOffset r (cfg.blockOffset r (s.mappedPages r + i)) = true := by
  unfold AllOrNothing growKvcachePhys
  split_ifs with hzero hfull hsync
  · subst hzero
    simp [Outcome.Ensures, Grown.refl]
  · cases hsync
  · -- the pool lacks the blocks: nothing has been touched
    have hlack : kvblocksAvailable cfg s numBlocks = false := by simpa using hfull
    simp [Outcome.Ensures, hlack]
  · have havail : kvblocksAvailable cfg s numBlocks = true := by simpa using hfull
    obtain ⟨s', m, hrun, hgrown, hvalids, hend⟩ :=
      growLoop_grown (r := r) (kvblocksAvailable_pool havail)
    rw [hrun]
    show Grown cfg r numBlocks s s' ↔ _
    constructor
    · intro hall
      -- the counter tells how many blocks were mapped
      have hm : m = numBlocks := by
        have hcount := hgrown.mapped_self.symm.trans hall.mapped_self
        omega
      subst hm
      exact .inr hvalids
    · rintro (hlack | hall)
      · rw [havail] at hlack
        cases hlack
      · rcases hend with rfl | ⟨hlt, hinvalid⟩
        · exact hgrown
        · rw [hall m hlt] at hinvalid
          cases hinvalid

/-- Three free blocks, and a request for three of them in a window of two. -/
def threeFreeBlocks : State :=
  runCalls twoSlots [] (reservePhysicalPages twoSlots id (6 * 65536) .init)

/-- Growth returns with two blocks. -/
theorem threeFreeBlocks_grows_by_two :
    (∃ s', growKvcachePhys twoSlots 0 3 true threeFreeBlocks = .done s' ∧
      s'.mappedPages 0 = 2) ∧ ¬ AllOrNothing twoSlots 0 3 threeFreeBlocks := by
  obtain ⟨s', hrun, htwo⟩ : ∃ s', growKvcachePhys twoSlots 0 3 true threeFreeBlocks = .done s' ∧
      s'.mappedPages 0 = 2 := ⟨_, rfl, by decide +kernel⟩
  refine ⟨⟨s', hrun, htwo⟩, fun h => ?_⟩
  unfold AllOrNothing at h
  rw [hrun] at h
  have hgrown : Grown twoSlots 0 3 threeFreeBlocks s' := h
  have hthree : s'.mappedPages 0 = threeFreeBlocks.mappedPages 0 + 3 := hgrown.mapped_self
  have hzero : threeFreeBlocks.mappedPages 0 = 0 := rfl
  omega

end VAttention.Allocator
