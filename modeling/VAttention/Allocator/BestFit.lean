import VAttention.Allocator.Demand

/-!
# The choice of a request slot

`alloc_new_batch_idx` scans the slots once and keeps one candidate.  The first inactive slot is a
candidate whatever it holds, and another one takes its place only if it holds enough pages and
fewer than the candidate.  So the scan finds the best fit if the first inactive slot holds enough
pages.  If it does not, then no slot that does can hold fewer, and the scan ends with its first
candidate.
-/

namespace VAttention.Allocator

variable {cfg : Config} {seqlen : Nat} {s : State} {l : List Nat} {q r : Nat}

/-! ## The scan -/

/-- One turn of the scan of `alloc_new_batch_idx`. -/
def bestFitTurn (cfg : Config) (seqlen : Nat) (s : State) (newId : Option Nat) (r : Nat) :
    Option Nat :=
  if s.isActiveReq r then newId
  else
    match newId with
    | none => some r
    | some q =>
      if cfg.tokensToPages seqlen ≤ s.mappedPages r && s.mappedPages r < s.mappedPages q then some r
      else some q

theorem findBatchIdx_eq (cfg : Config) (seqlen : Nat) (s : State) :
    findBatchIdx cfg seqlen s =
      (List.range cfg.maxBatchSize).foldl (bestFitTurn cfg seqlen s) none := rfl

/-- A slot of the list that a sequence can move into without a new page. -/
def Fits (cfg : Config) (seqlen : Nat) (s : State) (l : List Nat) (r : Nat) : Prop :=
  r ∈ l ∧ s.isActiveReq r = false ∧ cfg.tokensToPages seqlen ≤ s.mappedPages r

/-- Among those, one with the fewest pages. -/
def IsBestFit (cfg : Config) (seqlen : Nat) (s : State) (l : List Nat) (r : Nat) : Prop :=
  Fits cfg seqlen s l r ∧ ∀ q, Fits cfg seqlen s l q → s.mappedPages r ≤ s.mappedPages q

/-- Once there is a candidate, there is one at the end. -/
theorem foldl_bestFitTurn_some (q : Nat) :
    ∃ r, l.foldl (bestFitTurn cfg seqlen s) (some q) = some r := by
  induction l generalizing q with
  | nil => exact ⟨q, rfl⟩
  | cons r l ih =>
    have hturn : bestFitTurn cfg seqlen s (some q) r = some q ∨
        bestFitTurn cfg seqlen s (some q) r = some r := by
      unfold bestFitTurn
      dsimp only
      split_ifs <;> simp
    rw [List.foldl_cons]
    rcases hturn with hturn | hturn
    · rw [hturn]
      exact ih q
    · rw [hturn]
      exact ih r

/-- A candidate with too few pages stays. -/
theorem foldl_bestFitTurn_of_small (h : s.mappedPages q < cfg.tokensToPages seqlen) :
    l.foldl (bestFitTurn cfg seqlen s) (some q) = some q := by
  induction l with
  | nil => rfl
  | cons r l ih =>
    have hturn : bestFitTurn cfg seqlen s (some q) r = some q := by
      unfold bestFitTurn
      split_ifs with hactive
      · rfl
      · -- a slot with enough pages has more than the candidate
        refine if_neg fun hbetter => ?_
        simp only [Bool.and_eq_true, decide_eq_true_eq] at hbetter
        omega
    rw [List.foldl_cons, hturn, ih]

/-- A turn keeps the best fit among the slots seen so far. -/
theorem bestFitTurn_isBestFit (h : IsBestFit cfg seqlen s l q) (r : Nat) :
    ∃ q', bestFitTurn cfg seqlen s (some q) r = some q' ∧
      IsBestFit cfg seqlen s (l ++ [r]) q' := by
  obtain ⟨hfits, hbest⟩ := h
  have hold : ∀ p, Fits cfg seqlen s l p → Fits cfg seqlen s (l ++ [r]) p :=
    fun p ⟨hmem, hp⟩ => ⟨List.mem_append_left _ hmem, hp⟩
  -- a slot that fits was there before, or is the new one
  have hcases : ∀ p, Fits cfg seqlen s (l ++ [r]) p → Fits cfg seqlen s l p ∨
      p = r ∧ s.isActiveReq r = false ∧ cfg.tokensToPages seqlen ≤ s.mappedPages r := by
    rintro p ⟨hmem, hp⟩
    rcases List.mem_append.mp hmem with hmem | hmem
    · exact .inl ⟨hmem, hp⟩
    · obtain rfl := List.mem_singleton.mp hmem
      exact .inr ⟨rfl, hp⟩
  unfold bestFitTurn
  split_ifs with hactive
  · refine ⟨q, rfl, hold q hfits, fun p hp => ?_⟩
    rcases hcases p hp with hp | ⟨-, hinactive, -⟩
    · exact hbest p hp
    · rw [hactive] at hinactive
      cases hinactive
  rw [Bool.not_eq_true] at hactive
  dsimp only
  split_ifs with hbetter
  · simp only [Bool.and_eq_true, decide_eq_true_eq] at hbetter
    refine ⟨r, rfl, ⟨by simp, hactive, hbetter.1⟩, fun p hp => ?_⟩
    rcases hcases p hp with hp | ⟨rfl, -⟩
    · exact hbetter.2.le.trans (hbest p hp)
    · exact le_rfl
  · simp only [Bool.and_eq_true, decide_eq_true_eq, not_and, not_lt] at hbetter
    refine ⟨q, rfl, hold q hfits, fun p hp => ?_⟩
    rcases hcases p hp with hp | ⟨rfl, -, henough⟩
    · exact hbest p hp
    · exact hbetter henough

/-- **Run lemma** of the scan, once it has a candidate that fits. -/
theorem foldl_bestFitTurn_isBestFit {seen : List Nat} (h : IsBestFit cfg seqlen s seen q) :
    ∃ r, l.foldl (bestFitTurn cfg seqlen s) (some q) = some r ∧
      IsBestFit cfg seqlen s (seen ++ l) r := by
  induction l generalizing seen q with
  | nil => exact ⟨q, rfl, by rwa [List.append_nil]⟩
  | cons r l ih =>
    obtain ⟨q', hturn, hbest⟩ := bestFitTurn_isBestFit h r
    obtain ⟨r', hrun, hbest'⟩ := ih hbest
    refine ⟨r', by rw [List.foldl_cons, hturn, hrun], ?_⟩
    rwa [List.append_assoc] at hbest'

/-- The scan passes over active slots. -/
theorem foldl_bestFitTurn_of_active (h : ∀ r ∈ l, s.isActiveReq r = true) (newId : Option Nat) :
    l.foldl (bestFitTurn cfg seqlen s) newId = newId := by
  induction l with
  | nil => rfl
  | cons r l ih =>
    rw [List.forall_mem_cons] at h
    have hturn : bestFitTurn cfg seqlen s newId r = newId := if_pos h.1
    rw [List.foldl_cons, hturn, ih h.2]

/-- The first inactive slot. -/
def firstInactive (cfg : Config) (s : State) : Option Nat :=
  (List.range cfg.maxBatchSize).find? fun r => !s.isActiveReq r

theorem firstInactive_eq_none :
    firstInactive cfg s = none ↔ ∀ r < cfg.maxBatchSize, s.isActiveReq r = true := by
  simp [firstInactive, List.find?_eq_none]

/-- The scan starts with the first inactive slot. -/
theorem findBatchIdx_of_firstInactive (h : firstInactive cfg s = some q) :
    s.isActiveReq q = false ∧ q < cfg.maxBatchSize ∧
      ∃ before after, List.range cfg.maxBatchSize = before ++ q :: after ∧
        (∀ r ∈ before, s.isActiveReq r = true) ∧
        findBatchIdx cfg seqlen s = after.foldl (bestFitTurn cfg seqlen s) (some q) := by
  have hmem := List.mem_of_find?_eq_some h
  obtain ⟨hinactive, before, after, hrange, hactive⟩ := List.find?_eq_some_iff_append.mp h
  simp only [Bool.not_eq_true'] at hinactive
  simp only [Bool.not_not] at hactive
  refine ⟨hinactive, List.mem_range.mp hmem, before, after, hrange, hactive, ?_⟩
  rw [findBatchIdx_eq, hrange, List.foldl_append, foldl_bestFitTurn_of_active hactive,
    List.foldl_cons]
  simp [bestFitTurn, hinactive]

/-- The scan fails only if every slot is active. -/
theorem findBatchIdx_eq_none :
    findBatchIdx cfg seqlen s = none ↔ ∀ r < cfg.maxBatchSize, s.isActiveReq r = true := by
  rw [← firstInactive_eq_none]
  cases hfirst : firstInactive cfg s with
  | none =>
    rw [findBatchIdx_eq, foldl_bestFitTurn_of_active fun r hr =>
      firstInactive_eq_none.mp hfirst r (List.mem_range.mp hr)]
  | some q =>
    obtain ⟨-, -, before, after, -, -, hrun⟩ := findBatchIdx_of_firstInactive hfirst
    obtain ⟨r, hr⟩ : ∃ r, after.foldl (bestFitTurn cfg seqlen s) (some q) = some r :=
      foldl_bestFitTurn_some q
    rw [hrun, hr]
    simp

/-! ## Best fit -/

/-- What `alloc_new_batch_idx` is documented to do ("best fit"): it fails if no slot is inactive,
    and otherwise returns an inactive one, one with the fewest pages among those that hold enough
    if there are any.  Nothing changes but the length of that slot. -/
structure BestFit (cfg : Config) (seqlen : Nat) (s : State) : Prop where
  full : (allocNewBatchIdx cfg seqlen s).1 = none ↔ ∀ r < cfg.maxBatchSize, s.isActiveReq r = true
  inactive : ∀ r, (allocNewBatchIdx cfg seqlen s).1 = some r →
    r < cfg.maxBatchSize ∧ s.isActiveReq r = false
  best : ∀ r, (allocNewBatchIdx cfg seqlen s).1 = some r →
    (∃ q, Fits cfg seqlen s (List.range cfg.maxBatchSize) q) →
    IsBestFit cfg seqlen s (List.range cfg.maxBatchSize) r
  lengths : ∀ q, (allocNewBatchIdx cfg seqlen s).2.currSeqLengths q =
    if (allocNewBatchIdx cfg seqlen s).1 = some q then seqlen else s.currSeqLengths q
  frame : (allocNewBatchIdx cfg seqlen s).2 =
    { s with currSeqLengths := (allocNewBatchIdx cfg seqlen s).2.currSeqLengths }

theorem allocNewBatchIdx_fst (cfg : Config) (seqlen : Nat) (s : State) :
    (allocNewBatchIdx cfg seqlen s).1 = findBatchIdx cfg seqlen s := by
  unfold allocNewBatchIdx
  split <;> simp [*]

/-- The parts of `BestFit` that always hold, and the one that remains. -/
theorem bestFit_iff : BestFit cfg seqlen s ↔ ∀ r, findBatchIdx cfg seqlen s = some r →
    (∃ q, Fits cfg seqlen s (List.range cfg.maxBatchSize) q) →
    IsBestFit cfg seqlen s (List.range cfg.maxBatchSize) r := by
  have hfst := allocNewBatchIdx_fst cfg seqlen s
  constructor
  · intro h r hr
    exact h.best r (hfst.trans hr)
  intro h
  constructor
  case full => rw [hfst, findBatchIdx_eq_none]
  case inactive =>
    intro r hr
    rw [hfst] at hr
    obtain ⟨hlt, hzero⟩ := findBatchIdx_inactive hr
    exact ⟨hlt, by simp [State.isActiveReq, hzero]⟩
  case best => exact fun r hr => h r (hfst.symm.trans hr)
  case lengths =>
    intro q
    unfold allocNewBatchIdx
    split
    case h_1 r hr =>
      by_cases hq : q = r
      · simp [State.setReqSeqLength, hq]
      · have hne : r ≠ q := fun heq => hq heq.symm
        simp [State.setReqSeqLength, hq, hne]
    case h_2 => simp
  case frame =>
    unfold allocNewBatchIdx
    split <;> rfl

/-- **When the choice is the best fit**: in every state and for every length, exactly if the first
    inactive slot holds enough pages, or no inactive slot does. -/
theorem best_fit_iff_first_fits (cfg : Config) (seqlen : Nat) (s : State) :
    BestFit cfg seqlen s ↔
      ∀ first, firstInactive cfg s = some first →
        (∃ q < cfg.maxBatchSize, s.isActiveReq q = false ∧
          cfg.tokensToPages seqlen ≤ s.mappedPages q) →
        cfg.tokensToPages seqlen ≤ s.mappedPages first := by
  have hexists : (∃ q, Fits cfg seqlen s (List.range cfg.maxBatchSize) q) ↔
      ∃ q < cfg.maxBatchSize, s.isActiveReq q = false ∧
        cfg.tokensToPages seqlen ≤ s.mappedPages q := by
    simp [Fits]
  rw [bestFit_iff, hexists]
  constructor
  · intro h first hfirst hfits
    by_contra hsmall
    rw [not_le] at hsmall
    -- the scan ends with its first candidate
    obtain ⟨-, -, before, after, -, -, hrun⟩ := findBatchIdx_of_firstInactive hfirst
    rw [foldl_bestFitTurn_of_small hsmall] at hrun
    have hbest := h first hrun hfits
    exact absurd hbest.1.2.2 (not_le.mpr hsmall)
  · intro h r hr hfits
    cases hfirst : firstInactive cfg s with
    | none =>
      obtain ⟨q, hq, hinactive, -⟩ := hfits
      rw [firstInactive_eq_none.mp hfirst q hq] at hinactive
      cases hinactive
    | some first =>
      obtain ⟨hinactive, -, before, after, hrange, hactive, hrun⟩ :=
        findBatchIdx_of_firstInactive hfirst
      -- up to the first inactive slot, it is the best fit
      have hbest : IsBestFit cfg seqlen s (before ++ [first]) first := by
        refine ⟨⟨by simp, hinactive, h first hfirst hfits⟩, ?_⟩
        rintro p ⟨hmem, hp, -⟩
        rcases List.mem_append.mp hmem with hmem | hmem
        · rw [hactive p hmem] at hp
          cases hp
        · rw [List.mem_singleton.mp hmem]
      obtain ⟨r', hr', hbest'⟩ := foldl_bestFitTurn_isBestFit hbest
      obtain rfl : r' = r := Option.some.inj (hr'.symm.trans (hrun.symm.trans hr))
      rw [hrange]
      simpa using hbest'

/-- Two slots of two pages each, two tokens to a page. -/
def twoSlots : Config where
  numLayers := 1
  maxBatchSize := 2
  maxContextLength := 4
  pageSize := 65536
  tokensPerPage := 2
  megacacheEnabled := false
  numLayers_pos := Nat.one_pos
  pageSize_dvd := smallPage_dvd_u64Size
  tokensPerPage_pos := Nat.two_pos

/-- A request in slot 1 comes and goes; slot 0 never has a page. -/
def emptyFirstSlot : State :=
  runCalls twoSlots [.step (fun r => if r = 1 then 1 else 0) false, .freeBatchIdx 1]
    (reservePhysicalPages twoSlots id (4 * 65536) .init)

/-- The page of slot 1 would do, but the scan stays with slot 0. -/
theorem emptyFirstSlot_not_bestFit :
    (allocNewBatchIdx twoSlots 1 emptyFirstSlot).1 = some 0 ∧
      emptyFirstSlot.mappedPages 0 = 0 ∧ emptyFirstSlot.mappedPages 1 = 1 ∧
      emptyFirstSlot.isActiveReq 1 = false ∧ twoSlots.tokensToPages 1 = 1 ∧
      ¬ BestFit twoSlots 1 emptyFirstSlot := by
  have hfst : (allocNewBatchIdx twoSlots 1 emptyFirstSlot).1 = some 0 := by decide +kernel
  have hempty : emptyFirstSlot.mappedPages 0 = 0 := by decide +kernel
  have hpage : emptyFirstSlot.mappedPages 1 = 1 := by decide +kernel
  have hfree : emptyFirstSlot.isActiveReq 1 = false := by decide +kernel
  have hone : twoSlots.tokensToPages 1 = 1 := by decide
  refine ⟨hfst, hempty, hpage, hfree, hone, fun h => ?_⟩
  have hbest := h.best 0 hfst ⟨1, by decide, hfree, by rw [hone, hpage]⟩
  have henough : twoSlots.tokensToPages 1 ≤ emptyFirstSlot.mappedPages 0 := hbest.1.2.2
  omega

end VAttention.Allocator
