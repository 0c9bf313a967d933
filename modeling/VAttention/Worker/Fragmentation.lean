import VAttention.Allocator.BestFit
import VAttention.Allocator.Fragmentation
import VAttention.Lib.Runs
import VAttention.Worker.Context
import VAttention.Worker.Demand

/-!
# Reported fragmentation

`get_request_allocator_metrics` reports the fragmentation of a request from its recorded length and
the mapped blocks of its slot.  In the synchronous mode this is the value of the analytical model as
long as no request takes over a slot with more blocks than it needs.  The end of a request does not
release its blocks: `free_batch_idx` sets a length, and only a step that finds the slot idle unmaps
them.  A request that takes over the slot before that inherits them.
-/

namespace VAttention.Worker.VAttnCacheEngine

open VAttention.Core VAttention.Lib VAttention.Manager
open VAttention.Allocator hiding State

variable {c c₁ c' : VAttnCacheEngine} {config : Allocator.Config} {metas : List SequenceMetadata}

/-! ## What is reported -/

/-- The result of `get_request_allocator_metrics`. -/
structure RequestAllocatorMetrics where
  mappedBlocks : Nat
  fragmentationPercent : ℚ
  deriving DecidableEq

/-- `get_request_allocator_metrics`, with `cached_token_bytes_local` of the extension. -/
def getRequestAllocatorMetrics (c : VAttnCacheEngine) (cachedTokenBytesLocal : Nat) (id : SeqId) :
    Option RequestAllocatorMetrics :=
  match c.seqToBatchIdx id with
  | none => none
  | some r =>
    let seqLen := c.currSeqLens r
    if seqLen ≤ 0 then none
    else
      let mappedBlocks := c.allocator.mappedPages r
      let metrics :=
        computeFragmentationMetrics c.config cachedTokenBytesLocal seqLen mappedBlocks
      some { mappedBlocks, fragmentationPercent := metrics.tokenFragPct }

/-- Every request with a context is reported with the blocks that the context needs, and with the
    fragmentation of the analytical model. -/
def ReportsExactly (c : VAttnCacheEngine) : Prop :=
  ∀ cachedTokenBytesLocal id r, c.seqToBatchIdx id = some r → c.currSeqLens r ≠ 0 →
    c.getRequestAllocatorMetrics cachedTokenBytesLocal id = some {
      mappedBlocks := ⌈(c.currSeqLens r : ℚ) / c.config.tokensPerPage⌉₊
      fragmentationPercent :=
        exactFragmentationPercent (c.currSeqLens r) c.config.tokensPerPage }

theorem reportsExactly_of_tight (hover : c.config.NoOverflow) (hrange : c.SlotsInRange)
    (hlens : ∀ r, r < c.config.maxBatchSize → c.currSeqLens r ≤ c.config.maxContextLength)
    (h : Tight c.config c.currSeqLens c.allocator) : c.ReportsExactly := by
  intro cachedTokenBytesLocal id r hslot hactive
  have hr := hrange id r hslot
  have hpos := Nat.pos_of_ne_zero hactive
  have hblocks : c.allocator.mappedPages r = c.config.tokensToPages (c.currSeqLens r) := by
    rw [h r hr hactive, hover.tokensToPages_eq_ceil (hlens r hr)]
  simp only [getRequestAllocatorMetrics, hslot, if_neg (Nat.not_le.mpr hpos), hblocks,
    tokenFragPct_eq_exact hover cachedTokenBytesLocal hpos (hlens r hr),
    ← hover.tokensToPages_eq_ceil (hlens r hr)]

/-! ## Runs of the cache engine -/

/-- A call of the cache engine. -/
inductive CacheCall where
  | step (metas : List SequenceMetadata)
  | preemptRequests (ids : List SeqId)
  | onStepCompletion (metas : List SequenceMetadata)

def CacheCall.exec (call : CacheCall) (c : VAttnCacheEngine) : Except PyError VAttnCacheEngine :=
  match call with
  | .step metas => c.step metas
  | .preemptRequests ids => c.preemptRequests ids
  | .onStepCompletion metas => c.onStepCompletion metas

/-- States that any calls reach from a new cache engine with synchronous allocation. -/
def CacheReaches (config : Allocator.Config) (newPage : Nat → Page) (cacheMemSize : Nat) :
    VAttnCacheEngine → Prop :=
  Reaches CacheCall.exec (· = .new config false newPage cacheMemSize) (fun _ _ => True)

/-- What every call keeps. -/
structure CacheInv (config : Allocator.Config) (c : VAttnCacheEngine) : Prop where
  config_eq : c.config = config
  sync : c.vattnAsync = false
  pages : ∃ reserved, PageInv c.config reserved c.allocator
  range : c.SlotsInRange

theorem CacheInv.new (config : Allocator.Config) (newPage : Nat → Page) (cacheMemSize : Nat) :
    CacheInv config (.new config false newPage cacheMemSize) :=
  ⟨rfl, rfl, ⟨_, reservePhysicalPages_inv ..⟩, fun _ _ hslot => nomatch hslot⟩

theorem CacheInv.recordContext {m : SequenceMetadata} (hinv : CacheInv config c)
    (h : c.recordContext m = .ok c') : CacheInv config c' := by
  obtain ⟨hconfig, hasync⟩ := recordContext_config h
  obtain ⟨reserved, hpages⟩ := hinv.pages
  have hpages' : PageInv c'.config reserved c'.allocator := by
    rcases recordContext_eq_ok h with ⟨r, -, rfl⟩ | ⟨r, -, -, -, rfl⟩
    · exact hpages
    · exact hpages.setReqSeqLength r _
  exact ⟨hconfig.trans hinv.config_eq, hasync.trans hinv.sync, ⟨reserved, hpages'⟩,
    hinv.range.recordContext h⟩

theorem CacheInv.recordBatch (hinv : CacheInv config c) (h : c.recordBatch metas = .ok c') :
    CacheInv config c' :=
  foldlM_ok_induction (I := fun _ c => CacheInv config c)
    (fun _ _ _ _ hstep hc => hc.recordContext hstep) metas c c' h hinv

/-- A synchronous call of the allocator that returns. -/
theorem callAllocator_stepSync (hsync : c.vattnAsync = false) (h : c.callAllocator = .ok c') :
    ∃ allocator, stepSync c.config c.currSeqLens true c.allocator = .done allocator ∧
      c' = { c with allocator } := by
  obtain ⟨allocator, hc', ⟨-, hdone⟩ | ⟨hasync, -⟩⟩ := callAllocator_done h
  · exact ⟨allocator, hdone, hc'⟩
  · rw [hsync] at hasync
    cases hasync

theorem CacheInv.callAllocator (hinv : CacheInv config c) (h : c.callAllocator = .ok c') :
    CacheInv config c' := by
  obtain ⟨reserved, hpages⟩ := hinv.pages
  obtain ⟨allocator, hrun, rfl⟩ := callAllocator_stepSync hinv.sync h
  have hsafe := stepSync_safe c.currSeqLens true hpages
  rw [hrun] at hsafe
  exact ⟨hinv.config_eq, hinv.sync, ⟨reserved, hsafe⟩, hinv.range⟩

theorem CacheInv.freeRequest {id : SeqId} (hinv : CacheInv config c)
    (h : c.freeRequest id = .ok c') : CacheInv config c' := by
  obtain ⟨reserved, hpages⟩ := hinv.pages
  obtain ⟨r, -, rfl⟩ := freeRequest_eq_ok h
  refine ⟨hinv.config_eq, hinv.sync, ⟨reserved, hpages.setReqSeqLength r 0⟩, fun k q hk => ?_⟩
  by_cases hid : k = id
  · simp [hid] at hk
  · simp only [Function.update_of_ne hid] at hk
    exact hinv.range k q hk

/-- **Step lemma**: every call keeps the invariant. -/
theorem CacheInv.exec {call : CacheCall} (hinv : CacheInv config c)
    (h : call.exec c = .ok c') : CacheInv config c' := by
  cases call with
  | step metas =>
    obtain ⟨c₁, hrecord, hcall⟩ := seq_eq_ok.mp h
    exact (hinv.recordBatch hrecord).callAllocator hcall
  | preemptRequests ids =>
    exact foldlM_ok_induction (I := fun _ c => CacheInv config c)
      (fun _ _ _ _ hstep hc => hc.freeRequest hstep) ids c c' h hinv
  | onStepCompletion metas =>
    refine foldlM_ok_induction (I := fun _ c => CacheInv config c) ?_ metas c c' h hinv
    intro m _ c c' hstep hc
    split_ifs at hstep
    · exact hc.freeRequest hstep
    · cases hstep
      exact hc

/-- **Fragmentation in the synchronous mode**: take any state that a run reaches, a batch, and the
    engine `c₁` as it is when `vattention.step` is called, with lengths within the context.  If no
    active slot has more blocks than its new length needs, then after the call every active slot has
    exactly those, and every report is the value of the analytical model.  If the pool has the
    blocks that the call adds, that is the only case. -/
theorem sync_fragmentation_exact (config : Allocator.Config) (hfits : config.FitsAddressSpace)
    (newPage : Nat → Page) (cacheMemSize : Nat)
    (hreach : CacheReaches config newPage cacheMemSize c)
    (hrecord : c.recordBatch metas = .ok c₁) (hcall : c₁.callAllocator = .ok c')
    (hlens : ∀ r, r < config.maxBatchSize → c₁.currSeqLens r ≤ config.maxContextLength) :
    c.step metas = .ok c' ∧
      (NoExcess config c₁.currSeqLens c₁.allocator →
        Tight config c'.currSeqLens c'.allocator ∧ c'.ReportsExactly) ∧
      (kvblocksAvailable config c₁.allocator (growthOf config c₁.currSeqLens c₁.allocator
          (List.range config.maxBatchSize)) = true →
        Tight config c'.currSeqLens c'.allocator →
          NoExcess config c₁.currSeqLens c₁.allocator) := by
  have hstep : c.step metas = .ok c' := seq_eq_ok.mpr ⟨c₁, hrecord, hcall⟩
  have hinv : CacheInv config c := by
    refine Reaches.invariant (CacheInv config) ?_ (fun _ _ _ hc _ hexec => hc.exec hexec) hreach
    rintro _ rfl
    exact .new config newPage cacheMemSize
  have hinv₁ := hinv.recordBatch hrecord
  have hinv' := hinv₁.callAllocator hcall
  obtain ⟨reserved, hpages⟩ := hinv₁.pages
  obtain ⟨allocator, hrun, rfl⟩ := callAllocator_stepSync hinv₁.sync hcall
  rw [hinv₁.config_eq] at hpages hrun
  refine ⟨hstep, fun hexcess => ?_, fun hpool htight => ?_⟩
  · have htight := stepSync_tight true hfits hlens hpages hexcess hrun
    refine ⟨htight, reportsExactly_of_tight ?_ hinv'.range ?_ ?_⟩
    all_goals rw [hinv'.config_eq]
    · exact hfits.toNoOverflow
    · exact hlens
    · exact htight
  · exact noExcess_of_stepSync_tight true hfits hlens hpages hpool hrun htight

/-! ### Two slots of two pages -/

/-- A prompt that is processed in one chunk. -/
def promptEntry (id : SeqId) (prompt : List TokenId) : SequenceMetadata where
  seq := .new id [] prompt 2 none 0 {}
  promptChunkLen := prompt.length

/-- The same after its request has ended. -/
def finishedEntry (id : SeqId) (prompt : List TokenId) : SequenceMetadata where
  seq := { Sequence.new id [] prompt 2 none 0 {} with status := .finishedStopped }
  promptChunkLen := 0

/-- A cache engine with four blocks of two tokens. -/
def fourBlockEngine : VAttnCacheEngine := .new twoSlots false id (8 * 65536)

/-- Three tokens take two blocks and leave a quarter of them empty. -/
theorem threeTokens_reported :
    ∃ c₁ c', fourBlockEngine.recordBatch [promptEntry 0 [1, 2, 3]] = .ok c₁ ∧
      c₁.callAllocator = .ok c' ∧ Tight twoSlots c'.currSeqLens c'.allocator ∧
      c'.ReportsExactly := by
  have hstate : (fourBlockEngine.recordBatch [promptEntry 0 [1, 2, 3]]).bind (fun c₁ =>
      c₁.callAllocator.map fun _ => ((List.range 2).map c₁.currSeqLens,
        (List.range 2).map c₁.allocator.mappedPages)) = .ok ([3, 0], [0, 0]) := by
    decide +kernel
  obtain ⟨c₁, hrecord, hrest⟩ := seq_eq_ok.mp hstate
  obtain ⟨c', hcall, hvalues⟩ := map_eq_ok.mp hrest
  simp only [List.range_succ, List.range_zero, List.nil_append, List.map_cons,
    List.map_nil, List.cons_append, Prod.mk.injEq, List.cons.injEq, and_true] at hvalues
  obtain ⟨⟨hfirst, hsecond⟩, hmapped, -⟩ := hvalues
  have hfits : twoSlots.FitsAddressSpace :=
    Config.fitsAddressSpace_of_asserts (by decide) (by decide) (by decide) (by decide)
  have hslots : ∀ r, r < twoSlots.maxBatchSize → r = 0 ∨ r = 1 := by decide
  have hlens : ∀ r, r < twoSlots.maxBatchSize → c₁.currSeqLens r ≤ twoSlots.maxContextLength := by
    intro r hr
    rcases hslots r hr with rfl | rfl
    · rw [hfirst]
      decide
    · rw [hsecond]
      decide
  have hexcess : NoExcess twoSlots c₁.currSeqLens c₁.allocator := by
    intro r hr hactive
    rcases hslots r hr with rfl | rfl
    · rw [hmapped]
      exact Nat.zero_le _
    · exact absurd hsecond hactive
  exact ⟨c₁, c', hrecord, hcall, (sync_fragmentation_exact twoSlots hfits id (8 * 65536)
    (.init rfl) hrecord hcall hlens).2.1 hexcess⟩

/-- A request of four tokens ends, and one of a single token takes over its slot with both blocks:
    three quarters of them are reported empty, and the analytical model says one half. -/
theorem inherited_blocks_reported :
    ∃ c c', (fourBlockEngine.step [promptEntry 0 [1, 2, 3, 4]]).bind
        (fun c => c.onStepCompletion [finishedEntry 0 [1, 2, 3, 4]]) = .ok c ∧
      c.step [promptEntry 1 [5]] = .ok c' ∧ c'.allocator.mappedPages 0 = 2 ∧
      c'.currSeqLens 0 = 1 ∧ c'.getRequestAllocatorMetrics 1 1 = some ⟨2, 75⟩ ∧
      exactFragmentationPercent 1 twoSlots.tokensPerPage = 50 ∧
      ¬ Tight twoSlots c'.currSeqLens c'.allocator := by
  have hstate : ((fourBlockEngine.step [promptEntry 0 [1, 2, 3, 4]]).bind
      (fun c => c.onStepCompletion [finishedEntry 0 [1, 2, 3, 4]])).bind (fun c =>
        (c.step [promptEntry 1 [5]]).map fun c' => (c'.allocator.mappedPages 0, c'.currSeqLens 0,
          c'.getRequestAllocatorMetrics 1 1)) = .ok (2, 1, some ⟨2, 75⟩) := by
    decide +kernel
  obtain ⟨c, hfirst, hrest⟩ := seq_eq_ok.mp hstate
  obtain ⟨c', hsecond, hvalues⟩ := map_eq_ok.mp hrest
  simp only [Prod.mk.injEq] at hvalues
  obtain ⟨hmapped, hlen, hreport⟩ := hvalues
  refine ⟨c, c', hfirst, hsecond, hmapped, hlen, hreport, by decide +kernel, fun htight => ?_⟩
  have hblocks := htight 0 (by decide) (by rw [hlen]; decide)
  rw [hmapped, hlen, ceil_div_eq (by decide)] at hblocks
  revert hblocks
  decide

end VAttention.Worker.VAttnCacheEngine
