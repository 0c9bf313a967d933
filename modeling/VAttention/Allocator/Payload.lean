import VAttention.Allocator.Fragmentation
import VAttention.Allocator.ModelConfig

/-!
# Payload against mapped memory

`compute_fragmentation_metrics` multiplies the resident tokens with `cached_token_bytes_local` and
the mapped blocks with the pages of a block.  The two sizes are derived separately: the payload of a
token over all layers and components, and the tokens of a page from what a token takes in it.  They
fit together if the pages of a block hold the payload of its tokens.

The dense entry point recomputes both from the head geometry, and they always fit.  The component
entry point takes both from the specification, whose checks do not relate them; those that
`get_vattention_cache_spec` builds fit.
-/

namespace VAttention.Allocator

open VAttention.Lib

variable {cfg : Config}

/-! ## Consistent metrics -/

/-- The metrics add up, and no product has wrapped around. -/
structure FragmentationMetrics.Consistent (metrics : FragmentationMetrics)
    (cachedTokenBytesLocal pageSize : Nat) : Prop where
  tokens : metrics.residentTokens + metrics.slackTokens = metrics.mappedTokenCapacity
  payload_le : metrics.usefulPayloadBytes ≤ metrics.mappedPhysicalBytes
  capacity_exact : metrics.mappedTokenCapacity = metrics.mappedBlocks * metrics.tokensPerPage
  payload_exact : metrics.usefulPayloadBytes = metrics.residentTokens * cachedTokenBytesLocal
  physical_exact : metrics.mappedPhysicalBytes =
    metrics.mappedBlocks * metrics.pagesPerKvblock * pageSize

/-- Less than a page is slack, and its share is below the envelope. -/
structure FragmentationMetrics.InEnvelope (metrics : FragmentationMetrics) : Prop where
  slack_lt : metrics.slackTokens < metrics.tokensPerPage
  share_le : (metrics.slackTokens : ℚ) / metrics.mappedTokenCapacity ≤
    (metrics.tokensPerPage : ℚ) / (metrics.seqLen + metrics.tokensPerPage)

/-- The metrics of all lengths and all numbers of blocks that a request can have. -/
def MetricsConsistent (cfg : Config) (cachedTokenBytesLocal : Nat) : Prop :=
  ∀ seqLen nrMapped, seqLen < u64Size → nrMapped ≤ cfg.maxPagesPerReq →
    (computeFragmentationMetrics cfg cachedTokenBytesLocal seqLen nrMapped).Consistent
      cachedTokenBytesLocal cfg.pageSize ∧
    (0 < seqLen → nrMapped = cfg.tokensToPages seqLen →
      (computeFragmentationMetrics cfg cachedTokenBytesLocal seqLen nrMapped).InEnvelope)

/-- The pages of a block hold the payload of its tokens. -/
def PagesHoldTokens (cfg : Config) (cachedTokenBytesLocal : Nat) : Prop :=
  cfg.tokensPerPage * cachedTokenBytesLocal ≤ cfg.pagesPerKvblock * cfg.pageSize

/-! ## Within the bounds -/

/-- A configuration within the bounds that `init_kvcache` asserts, with a page size that the driver
    supports. -/
structure Config.Bounded (cfg : Config) : Prop where
  context_pos : 0 < cfg.maxContextLength
  context_lt : cfg.maxContextLength < 1000000
  layers_lt : cfg.numLayers < 100
  tokensPerPage_le : cfg.tokensPerPage ≤ cfg.pageSize
  pageSize_le : cfg.pageSize ≤ 2 * kilobyte * kilobyte

theorem u64Size_eq : u64Size = 18446744073709551616 := rfl

/-- A length so large that the sum wraps around is given no blocks. -/
theorem Config.tokensToPages_of_wrap {n : Nat} (hn : n < u64Size)
    (htokens : cfg.tokensPerPage ≤ u64Size) (h : u64Size < n + cfg.tokensPerPage) :
    cfg.tokensToPages n = 0 := by
  have hmod : (n + cfg.tokensPerPage - 1) % u64Size = n + cfg.tokensPerPage - 1 - u64Size := by
    rw [Nat.mod_eq_sub_mod (by omega), Nat.mod_eq_of_lt (by omega)]
  rw [tokensToPages, hmod]
  exact Nat.div_eq_of_lt (by omega)

namespace Config.Bounded

variable (h : cfg.Bounded)

include h

theorem tokensPerPage_small : cfg.tokensPerPage ≤ 2097152 :=
  h.tokensPerPage_le.trans h.pageSize_le

theorem context_add_le : cfg.maxContextLength + cfg.tokensPerPage ≤ u64Size := by
  have htokens := h.tokensPerPage_small
  have hcontext := h.context_lt
  rw [u64Size_eq]
  omega

/-- The blocks of a request hold less than a page more than its context. -/
theorem capacity_lt {nrMapped : Nat} (hn : nrMapped ≤ cfg.maxPagesPerReq) :
    nrMapped * cfg.tokensPerPage < 3097152 := by
  have htokens := h.tokensPerPage_small
  have hcontext := h.context_lt
  have hmax : cfg.maxPagesPerReq * cfg.tokensPerPage < cfg.maxContextLength + cfg.tokensPerPage :=
    (tokensToPages_mul h.context_add_le).2
  have hle := Nat.mul_le_mul_right cfg.tokensPerPage hn
  omega

theorem maxPagesPerReq_pos : 0 < cfg.maxPagesPerReq := by
  have hpos := h.context_pos
  have hhold : cfg.maxContextLength ≤ cfg.maxPagesPerReq * cfg.tokensPerPage :=
    (tokensToPages_mul h.context_add_le).1
  by_contra hzero
  rw [Nat.eq_zero_of_not_pos hzero, Nat.zero_mul] at hhold
  omega

theorem pagesPerKvblock_le : cfg.pagesPerKvblock ≤ 200 := by
  have hlayers := h.layers_lt
  unfold pagesPerKvblock numCacheComponents
  split_ifs <;> omega

/-- The mapped bytes of a request stay far below `2 ^ 64`. -/
theorem physical_lt {nrMapped : Nat} (hn : nrMapped ≤ cfg.maxPagesPerReq) :
    nrMapped * cfg.pagesPerKvblock * cfg.pageSize < u64Size := by
  have hblocks : nrMapped ≤ 3097152 :=
    (Nat.le_mul_of_pos_right _ cfg.tokensPerPage_pos).trans (h.capacity_lt hn).le
  calc nrMapped * cfg.pagesPerKvblock * cfg.pageSize
      ≤ 3097152 * 200 * (2 * kilobyte * kilobyte) :=
        Nat.mul_le_mul (Nat.mul_le_mul hblocks h.pagesPerKvblock_le) h.pageSize_le
    _ < u64Size := by decide

end Config.Bounded

/-! ## Metrics within the bounds -/

variable {cachedTokenBytesLocal seqLen nrMapped : Nat}

/-- The resident tokens are cut at the capacity, so that the difference never wraps around. -/
theorem residentTokens_add_slackTokens (cfg : Config)
    (cachedTokenBytesLocal seqLen nrMapped : Nat) :
    (computeFragmentationMetrics cfg cachedTokenBytesLocal seqLen nrMapped).residentTokens +
      (computeFragmentationMetrics cfg cachedTokenBytesLocal seqLen nrMapped).slackTokens =
      (computeFragmentationMetrics cfg cachedTokenBytesLocal seqLen nrMapped).mappedTokenCapacity :=
    by
  simp only [computeFragmentationMetrics]
  split_ifs <;> omega

theorem consistent_of_pagesHoldTokens (h : cfg.Bounded)
    (hhold : PagesHoldTokens cfg cachedTokenBytesLocal) (hn : nrMapped ≤ cfg.maxPagesPerReq) :
    (computeFragmentationMetrics cfg cachedTokenBytesLocal seqLen nrMapped).Consistent
      cachedTokenBytesLocal cfg.pageSize := by
  have hcapacity : nrMapped * cfg.tokensPerPage % u64Size = nrMapped * cfg.tokensPerPage :=
    Nat.mod_eq_of_lt ((h.capacity_lt hn).trans (by decide))
  have hphysical : nrMapped * cfg.pagesPerKvblock * cfg.pageSize % u64Size =
      nrMapped * cfg.pagesPerKvblock * cfg.pageSize := Nat.mod_eq_of_lt (h.physical_lt hn)
  have hresident : (if seqLen < nrMapped * cfg.tokensPerPage then seqLen
      else nrMapped * cfg.tokensPerPage) ≤ nrMapped * cfg.tokensPerPage := by
    split_ifs <;> omega
  -- the payload of the resident tokens is at most that of all tokens of the blocks
  have hpayload : (if seqLen < nrMapped * cfg.tokensPerPage then seqLen
      else nrMapped * cfg.tokensPerPage) * cachedTokenBytesLocal ≤
        nrMapped * cfg.pagesPerKvblock * cfg.pageSize := by
    calc _ ≤ nrMapped * cfg.tokensPerPage * cachedTokenBytesLocal :=
          Nat.mul_le_mul_right _ hresident
      _ = nrMapped * (cfg.tokensPerPage * cachedTokenBytesLocal) := Nat.mul_assoc ..
      _ ≤ nrMapped * (cfg.pagesPerKvblock * cfg.pageSize) := Nat.mul_le_mul_left _ hhold
      _ = nrMapped * cfg.pagesPerKvblock * cfg.pageSize := (Nat.mul_assoc ..).symm
  have hexact := Nat.mod_eq_of_lt (hpayload.trans_lt (h.physical_lt hn))
  constructor
  case tokens => exact residentTokens_add_slackTokens ..
  case payload_le =>
    simp only [computeFragmentationMetrics, hcapacity, hphysical, hexact]
    exact hpayload
  case capacity_exact => exact hcapacity
  case payload_exact =>
    simp only [computeFragmentationMetrics, hcapacity, hexact]
  case physical_exact => exact hphysical

/-- The envelope of a ceiling: `c` is the capacity of `n` tokens in pages of `p`. -/
theorem slack_share_le {n c p : ℚ} (hn : 0 < n) (hp : 0 < p) (hle : n ≤ c) (hlt : c ≤ n + p) :
    (c - n) / c ≤ p / (n + p) := by
  rw [div_le_div_iff₀ (by linarith) (by linarith)]
  have hprod : 0 ≤ n * (n + p - c) := mul_nonneg hn.le (by linarith)
  linarith

/-- The envelope needs no bounds: the capacity of a length is less than a page above it. -/
theorem inEnvelope_of_tokensToPages (hsmall : cfg.tokensPerPage ≤ u64Size)
    (cachedTokenBytesLocal : Nat) (hpos : 0 < seqLen) (hseq : seqLen < u64Size) :
    (computeFragmentationMetrics cfg cachedTokenBytesLocal seqLen
      (cfg.tokensToPages seqLen)).InEnvelope := by
  have htokens := cfg.tokensPerPage_pos
  by_cases hwrap : seqLen + cfg.tokensPerPage ≤ u64Size
  · obtain ⟨hle, hlt⟩ := Config.tokensToPages_mul hwrap
    have hcapacity : cfg.tokensToPages seqLen * cfg.tokensPerPage % u64Size =
        cfg.tokensToPages seqLen * cfg.tokensPerPage := Nat.mod_eq_of_lt (hlt.trans_le hwrap)
    have hresident : (if seqLen < cfg.tokensToPages seqLen * cfg.tokensPerPage then seqLen
        else cfg.tokensToPages seqLen * cfg.tokensPerPage) = seqLen := by
      split_ifs <;> omega
    constructor
    case slack_lt =>
      simp only [computeFragmentationMetrics, hcapacity, hresident]
      omega
    case share_le =>
      simp only [computeFragmentationMetrics, hcapacity, hresident]
      rw [Nat.cast_sub hle]
      apply slack_share_le
      · exact_mod_cast hpos
      · exact_mod_cast htokens
      · exact_mod_cast hle
      · exact_mod_cast hlt.le
  · -- no blocks, and so no slack
    have hzero := Config.tokensToPages_of_wrap hseq hsmall (Nat.lt_of_not_le hwrap)
    constructor
    case slack_lt => simpa [computeFragmentationMetrics, hzero] using htokens
    case share_le =>
      simp only [computeFragmentationMetrics, hzero, Nat.zero_mul, Nat.zero_mod, Nat.zero_sub,
        Nat.cast_zero, zero_div]
      positivity

/-- **The metrics are consistent** exactly if the pages of a block hold the payload of its
    tokens. -/
theorem metricsConsistent_iff_pagesHoldTokens (h : cfg.Bounded) (cachedTokenBytesLocal : Nat) :
    MetricsConsistent cfg cachedTokenBytesLocal ↔ PagesHoldTokens cfg cachedTokenBytesLocal := by
  constructor
  · intro hmetrics
    -- a single block, full of tokens
    have htokens : cfg.tokensPerPage < u64Size :=
      h.tokensPerPage_small.trans_lt (by decide)
    obtain ⟨hconsistent, -⟩ := hmetrics cfg.tokensPerPage 1 htokens h.maxPagesPerReq_pos
    have hle := hconsistent.payload_le
    rw [hconsistent.payload_exact, hconsistent.physical_exact] at hle
    simpa [PagesHoldTokens, computeFragmentationMetrics, Nat.mod_eq_of_lt htokens] using hle
  · intro hhold seqLen nrMapped hseq hn
    refine ⟨consistent_of_pagesHoldTokens h hhold hn, ?_⟩
    rintro hpos rfl
    exact inEnvelope_of_tokensToPages (h.tokensPerPage_small.trans (by decide))
      cachedTokenBytesLocal hpos hseq

/-! ## Specifications -/

/-- `cached_token_bytes_local` after the entry point that the architecture selects. -/
def VAttentionInitSpec.extensionCachedTokenBytesLocal (spec : VAttentionInitSpec) : Nat :=
  let s := spec.cacheSpec
  match s.architecture with
  | .denseKv => s.numLayers * 2 * s.numKvHeads * s.headSize * spec.dtype.itemsize % u64Size
  | .mla => s.cachedTokenBytesLocal

/-- The bounds that `init_kvcache` asserts. -/
structure VAttentionInitSpec.WithinBounds (spec : VAttentionInitSpec) : Prop where
  maxBatchSize : spec.maxBatchSize < 1000
  maxContextLength : spec.maxContextLength < 1000000
  numLayers : spec.cacheSpec.numLayers < 100
  numKvHeads : spec.cacheSpec.numKvHeads < 256

theorem mkConfig_pageSize_le {layers batch context page tpp : Nat} {mega : Bool} {cfg : Config}
    (h : mkConfig layers batch context page tpp mega = .ok cfg) :
    cfg.pageSize ≤ 2 * kilobyte * kilobyte := by
  obtain ⟨-, -, -, hpage, -⟩ := mkConfig_eq_ok h
  unfold mkConfig at h
  split at h
  case isFalse => cases h
  case isTrue hmem =>
    rw [hpage]
    simp only [supportedPageSizes, kilobyte, List.mem_cons, List.not_mem_nil, or_false] at hmem ⊢
    omega

theorem VAttentionCacheSpec.tokensPerPage_eq_of_postInit {s : VAttentionCacheSpec}
    (h : s.postInit = .ok ()) : s.tokensPerPage = s.pageSize / s.pageBufferTokenBytes := by
  unfold VAttentionCacheSpec.postInit at h
  simp only [seq_eq_ok, raiseIf_eq_ok, exists_const] at h
  obtain ⟨⟨⟩, -, -, -, -, -, -, -, -, -, -, -, -, -, htpp, -⟩ := h
  simpa using htpp

theorem VAttentionInitSpec.cacheSpec_postInit {spec : VAttentionInitSpec} {setup : Setup}
    (h : spec.initialise = .ok setup) : spec.cacheSpec.postInit = .ok () := by
  obtain ⟨⟨⟩, hpost, -⟩ := seq_eq_ok.mp h
  obtain ⟨⟨⟩, hspec, -⟩ := seq_eq_ok.mp hpost
  exact hspec

section Initialised

variable {spec : VAttentionInitSpec} {setup : Setup}

theorem tokensPerPage_le_of_initialise (hinit : spec.initialise = .ok setup) :
    setup.cfg.tokensPerPage ≤ setup.cfg.pageSize := by
  obtain ⟨-, hcfg, -⟩ := initialise_parts hinit
  obtain ⟨-, -, -, hpage, htokens, -⟩ := mkConfig_eq_ok hcfg
  rw [htokens, hpage]
  unfold VAttentionInitSpec.extensionTokensPerPage
  dsimp only
  split
  · exact Nat.div_le_self ..
  · rw [VAttentionCacheSpec.tokensPerPage_eq_of_postInit
      (VAttentionInitSpec.cacheSpec_postInit hinit)]
    exact Nat.div_le_self ..

theorem bounded_of_initialise (hinit : spec.initialise = .ok setup) (hbounds : spec.WithinBounds) :
    setup.cfg.Bounded := by
  obtain ⟨hchecked, hcfg, -⟩ := initialise_parts hinit
  obtain ⟨-, hcontext, hlayers, -⟩ := mkConfig_eq_ok hcfg
  constructor
  case context_pos => exact hcontext ▸ hchecked.maxContextLength_pos
  case context_lt => exact hcontext ▸ hbounds.maxContextLength
  case layers_lt => exact hlayers ▸ hbounds.numLayers
  case tokensPerPage_le => exact tokensPerPage_le_of_initialise hinit
  case pageSize_le => exact mkConfig_pageSize_le hcfg

/-- The dense entry point sizes both from the heads: keys and values have a page each. -/
theorem pagesHoldTokens_of_dense (hinit : spec.initialise = .ok setup)
    (harch : spec.cacheSpec.architecture = .denseKv) :
    PagesHoldTokens setup.cfg spec.extensionCachedTokenBytesLocal := by
  obtain ⟨-, hcfg, -⟩ := initialise_parts hinit
  obtain ⟨-, -, hlayers, hpage, htokens, hmega⟩ := mkConfig_eq_ok hcfg
  unfold PagesHoldTokens
  rw [htokens, Config.pagesPerKvblock, hmega, hlayers, hpage]
  simp only [VAttentionInitSpec.extensionTokensPerPage,
    VAttentionInitSpec.extensionCachedTokenBytesLocal, harch, Config.numCacheComponents]
  generalize htoken : spec.cacheSpec.numKvHeads * spec.cacheSpec.headSize * spec.dtype.itemsize =
    tokenBytes
  have hpayload : spec.cacheSpec.numLayers * 2 * spec.cacheSpec.numKvHeads *
      spec.cacheSpec.headSize * spec.dtype.itemsize =
        2 * spec.cacheSpec.numLayers * tokenBytes := by
    rw [← htoken]
    ring
  apply (Nat.mul_le_mul_left _ (Nat.mod_le ..)).trans
  rw [hpayload]
  cases spec.cacheSpec.megacache with
  | true =>
    simp only [if_true]
    calc spec.cacheSpec.pageSize / (tokenBytes * spec.cacheSpec.numLayers) *
          (2 * spec.cacheSpec.numLayers * tokenBytes)
        = 2 * (spec.cacheSpec.pageSize / (tokenBytes * spec.cacheSpec.numLayers) *
          (tokenBytes * spec.cacheSpec.numLayers)) := by ring
      _ ≤ 2 * spec.cacheSpec.pageSize := Nat.mul_le_mul_left _ (Nat.div_mul_le_self ..)
  | false =>
    simp only [Bool.false_eq_true, if_false]
    calc spec.cacheSpec.pageSize / tokenBytes * (2 * spec.cacheSpec.numLayers * tokenBytes)
        = 2 * spec.cacheSpec.numLayers * (spec.cacheSpec.pageSize / tokenBytes * tokenBytes) := by
          ring
      _ ≤ 2 * spec.cacheSpec.numLayers * spec.cacheSpec.pageSize :=
          Nat.mul_le_mul_left _ (Nat.div_mul_le_self ..)

/-- A page has room for a token, so the payload of a token has not wrapped around. -/
theorem extensionCachedTokenBytesLocal_of_dense (hinit : spec.initialise = .ok setup)
    (hbounds : spec.WithinBounds) (harch : spec.cacheSpec.architecture = .denseKv) :
    spec.extensionCachedTokenBytesLocal = spec.cacheSpec.numLayers * 2 *
      spec.cacheSpec.numKvHeads * spec.cacheSpec.headSize * spec.dtype.itemsize := by
  obtain ⟨hchecked, hcfg, -⟩ := initialise_parts hinit
  obtain ⟨-, -, -, hpage, htokens, -⟩ := mkConfig_eq_ok hcfg
  have hpos := htokens ▸ setup.cfg.tokensPerPage_pos
  simp only [VAttentionInitSpec.extensionTokensPerPage, harch] at hpos
  have hfits := (Nat.div_pos_iff.mp hpos).2
  have htoken : spec.cacheSpec.numKvHeads * spec.cacheSpec.headSize * spec.dtype.itemsize ≤
      spec.cacheSpec.pageSize := by
    split_ifs at hfits
    · exact (Nat.le_mul_of_pos_right _ hchecked.numLayers_pos).trans hfits
    · exact hfits
  have hsize : spec.cacheSpec.pageSize ≤ 2 * kilobyte * kilobyte :=
    hpage ▸ mkConfig_pageSize_le hcfg
  simp only [VAttentionInitSpec.extensionCachedTokenBytesLocal, harch]
  apply Nat.mod_eq_of_lt
  calc spec.cacheSpec.numLayers * 2 * spec.cacheSpec.numKvHeads * spec.cacheSpec.headSize *
        spec.dtype.itemsize
      = spec.cacheSpec.numLayers * 2 *
        (spec.cacheSpec.numKvHeads * spec.cacheSpec.headSize * spec.dtype.itemsize) := by ring
    _ ≤ 100 * 2 * (2 * kilobyte * kilobyte) :=
        Nat.mul_le_mul (Nat.mul_le_mul_right _ hbounds.numLayers.le) (htoken.trans hsize)
    _ < u64Size := by decide

/-- If a page holds the payload of its tokens in the layers it is for, then the pages of a block do
    so for all layers. -/
theorem pagesHoldTokens_of_perLayer {perLayer : Nat} (hbytes : cachedTokenBytesLocal =
      cfg.numLayers * perLayer)
    (hpage : cfg.tokensPerPage *
      (if cfg.megacacheEnabled then cfg.numLayers * perLayer else perLayer) ≤ cfg.pageSize) :
    PagesHoldTokens cfg cachedTokenBytesLocal := by
  unfold PagesHoldTokens Config.pagesPerKvblock Config.numCacheComponents
  rw [hbytes]
  cases hmega : cfg.megacacheEnabled with
  | true =>
    simp only [hmega, if_true] at hpage ⊢
    omega
  | false =>
    simp only [hmega, Bool.false_eq_true, if_false] at hpage ⊢
    calc cfg.tokensPerPage * (cfg.numLayers * perLayer)
        = cfg.numLayers * (cfg.tokensPerPage * perLayer) := by ring
      _ ≤ cfg.numLayers * cfg.pageSize := Nat.mul_le_mul_left _ hpage
      _ ≤ 2 * cfg.numLayers * cfg.pageSize :=
          Nat.mul_le_mul_right _ (Nat.le_mul_of_pos_left _ Nat.zero_lt_two)

end Initialised

namespace ModelConfig

variable {m : ModelConfig} {p : ParallelConfig} {pageSize : Nat} {megacache : Bool}

/-- The bytes that `get_cache_layout` puts into a layout of an MLA model, all of them multiples of
    those of a layer. -/
theorem getCacheLayout_mla_bytes {layout : CacheLayout} {numLayers : Nat}
    (hlayers : m.getNumLayers p = .ok numLayers) (harch : m.getCacheArchitecture = .mla)
    (h : m.getCacheLayout p pageSize megacache = .ok layout) :
    ∃ perLayer, layout.cachedTokenBytesLocal = numLayers * perLayer ∧
      layout.pageBufferTokenBytes = if megacache then numLayers * perLayer else perLayer := by
  obtain ⟨perLayer, hperLayer, h⟩ := seq_eq_ok.mp h
  obtain ⟨bytesLocal, hlocal, h⟩ := seq_eq_ok.mp h
  obtain ⟨bufferBytes, hbuffer, h⟩ := seq_eq_ok.mp h
  obtain ⟨_, -, h⟩ := seq_eq_ok.mp h
  cases h
  refine ⟨perLayer, ?_, ?_⟩
  · unfold getCachedTokenBytesLocal at hlocal
    rw [hlayers, hperLayer] at hlocal
    cases hlocal
    rfl
  · unfold getPageBufferTokenBytes at hbuffer
    rw [harch, hperLayer, hlayers] at hbuffer
    cases megacache with
    | true =>
      cases hbuffer
      rfl
    | false =>
      cases hbuffer
      rfl

/-- A specification takes its sizes from the layout. -/
theorem exists_layout_of_getVattentionCacheSpec {spec : VAttentionCacheSpec}
    (h : m.getVattentionCacheSpec p pageSize megacache = .ok spec) :
    ∃ layout, m.getCacheLayout p pageSize megacache = .ok layout ∧
      spec.cachedTokenBytesLocal = layout.cachedTokenBytesLocal ∧
      spec.pageBufferTokenBytes = layout.pageBufferTokenBytes := by
  obtain ⟨layout, hlayout, h⟩ := seq_eq_ok.mp h
  obtain ⟨_, -, h⟩ := seq_eq_ok.mp h
  obtain ⟨_, -, h⟩ := seq_eq_ok.mp h
  obtain ⟨_, -, h⟩ := seq_eq_ok.mp h
  obtain ⟨_, -, h⟩ := seq_eq_ok.mp h
  obtain ⟨_, -, h⟩ := seq_eq_ok.mp h
  obtain ⟨_, -, h⟩ := seq_eq_ok.mp h
  obtain ⟨⟨⟩, -, h⟩ := seq_eq_ok.mp h
  cases h
  exact ⟨layout, hlayout, rfl, rfl⟩

/-- The sizes of a specification that `get_vattention_cache_spec` builds for an MLA model. -/
theorem getVattentionCacheSpec_mla_bytes {spec : VAttentionCacheSpec}
    (harch : spec.architecture = .mla)
    (h : m.getVattentionCacheSpec p pageSize megacache = .ok spec) :
    ∃ perLayer, spec.cachedTokenBytesLocal = spec.numLayers * perLayer ∧
      spec.pageBufferTokenBytes =
        if spec.megacache then spec.numLayers * perLayer else perLayer := by
  have hspecifies := getVattentionCacheSpec_specifies h
  obtain ⟨layout, hlayout, hlocal, hbuffer⟩ := exists_layout_of_getVattentionCacheSpec h
  rw [hlocal, hbuffer, hspecifies.megacache_eq]
  exact getCacheLayout_mla_bytes hspecifies.numLayers (hspecifies.architecture ▸ harch) hlayout

end ModelConfig

section Specifications

variable {spec : VAttentionInitSpec} {setup : Setup}

/-- The specifications that the model configuration builds fit, too. -/
theorem pagesHoldTokens_of_modelConfig (hinit : spec.initialise = .ok setup) {m : ModelConfig}
    {p : ParallelConfig} {pageSize : Nat} {megacache : Bool} {maxBatchSize : Nat}
    (hspec : m.getVattentionInitSpec p pageSize megacache maxBatchSize = .ok spec) :
    PagesHoldTokens setup.cfg spec.extensionCachedTokenBytesLocal := by
  cases harch : spec.cacheSpec.architecture with
  | denseKv => exact pagesHoldTokens_of_dense hinit harch
  | mla =>
    obtain ⟨cacheSpec, hcache, h⟩ := seq_eq_ok.mp hspec
    obtain ⟨⟨⟩, -, h⟩ := seq_eq_ok.mp h
    have hcacheSpec : spec.cacheSpec = cacheSpec := by
      cases h
      rfl
    rw [← hcacheSpec] at hcache
    obtain ⟨perLayer, hlocal, hbuffer⟩ :=
      ModelConfig.getVattentionCacheSpec_mla_bytes harch hcache
    obtain ⟨-, hcfg, -⟩ := initialise_parts hinit
    obtain ⟨-, -, hlayers, hpage, htokens, hmega⟩ := mkConfig_eq_ok hcfg
    simp only [VAttentionInitSpec.extensionTokensPerPage, harch] at htokens
    apply pagesHoldTokens_of_perLayer
    · simpa only [VAttentionInitSpec.extensionCachedTokenBytesLocal, harch, hlayers] using hlocal
    · rw [hmega, hlayers, ← hbuffer, htokens, hpage,
        VAttentionCacheSpec.tokensPerPage_eq_of_postInit
          (VAttentionInitSpec.cacheSpec_postInit hinit)]
      exact Nat.div_mul_le_self ..

/-- **Fragmentation metrics** of a cache that initialises, dense or MLA, with or without megacache.
    The tokens add up and the slack stays in its envelope.  Within the bounds, the payload is at
    most the mapped memory and nothing wraps around exactly if the cache is dense or the pages of a
    block hold the payload of its tokens, as with every specification of
    `get_vattention_init_spec`. -/
theorem fragmentation_metrics_consistent_iff (hinit : spec.initialise = .ok setup) :
    (∀ seqLen nrMapped,
      let metrics := computeFragmentationMetrics setup.cfg spec.extensionCachedTokenBytesLocal
        seqLen nrMapped
      metrics.residentTokens + metrics.slackTokens = metrics.mappedTokenCapacity) ∧
    (∀ seqLen, 0 < seqLen → seqLen < u64Size →
      (computeFragmentationMetrics setup.cfg spec.extensionCachedTokenBytesLocal seqLen
        (setup.cfg.tokensToPages seqLen)).InEnvelope) ∧
    (spec.WithinBounds →
      (MetricsConsistent setup.cfg spec.extensionCachedTokenBytesLocal ↔
        (spec.cacheSpec.architecture = .mla →
          spec.cacheSpec.tokensPerPage * spec.cacheSpec.cachedTokenBytesLocal ≤
            setup.cfg.pagesPerKvblock * spec.cacheSpec.pageSize)) ∧
      (spec.cacheSpec.architecture = .denseKv →
        spec.extensionCachedTokenBytesLocal = spec.cacheSpec.numLayers * 2 *
          spec.cacheSpec.numKvHeads * spec.cacheSpec.headSize * spec.dtype.itemsize) ∧
      ∀ (m : ModelConfig) (p : ParallelConfig) (pageSize : Nat) (megacache : Bool)
        (maxBatchSize : Nat),
        m.getVattentionInitSpec p pageSize megacache maxBatchSize = .ok spec →
          MetricsConsistent setup.cfg spec.extensionCachedTokenBytesLocal) := by
  obtain ⟨-, hcfg, -⟩ := initialise_parts hinit
  refine ⟨fun _ _ => residentTokens_add_slackTokens .., ?_, ?_⟩
  · intro seqLen hpos hseq
    have hsmall := (tokensPerPage_le_of_initialise hinit).trans (mkConfig_pageSize_le hcfg)
    exact inEnvelope_of_tokensToPages (hsmall.trans (by decide)) _ hpos hseq
  · intro hbounds
    have hiff := metricsConsistent_iff_pagesHoldTokens (bounded_of_initialise hinit hbounds)
      spec.extensionCachedTokenBytesLocal
    refine ⟨?_, extensionCachedTokenBytesLocal_of_dense hinit hbounds, ?_⟩
    · rw [hiff]
      cases harch : spec.cacheSpec.architecture with
      | denseKv => exact iff_of_true (pagesHoldTokens_of_dense hinit harch) (by simp)
      | mla =>
        obtain ⟨-, -, -, hpage, htokens, -⟩ := mkConfig_eq_ok hcfg
        simp only [VAttentionInitSpec.extensionTokensPerPage, harch] at htokens
        simp [PagesHoldTokens, VAttentionInitSpec.extensionCachedTokenBytesLocal, harch, htokens,
          hpage]
    · intro m p pageSize megacache maxBatchSize hspec
      exact hiff.mpr (pagesHoldTokens_of_modelConfig hinit hspec)

theorem mlaSpec_metrics_consistent :
    MetricsConsistent mlaSetup.cfg mlaSpec.extensionCachedTokenBytesLocal := by
  have hinit : mlaSpec.initialise = .ok mlaSetup := by rfl
  have hbounds : mlaSpec.WithinBounds := ⟨by decide, by decide, by decide, by decide⟩
  obtain ⟨-, -, hbounded⟩ := fragmentation_metrics_consistent_iff hinit
  exact (hbounded hbounds).1.mpr (by decide)

/-- `mlaSpec` with a payload of 3000 bytes for a token, of which it stores 1152. -/
def heavyMlaSpec : VAttentionInitSpec :=
  { mlaSpec with cacheSpec := { mlaSpec.cacheSpec with cachedTokenBytesLocal := 3000 } }

/-- The specification passes all checks, but the payload of the 56 tokens of a block is 168000
    bytes, and its two pages have 131072. -/
theorem heavyMlaSpec_inconsistent :
    heavyMlaSpec.initialise = .ok mlaSetup ∧ heavyMlaSpec.WithinBounds ∧
      ¬ MetricsConsistent mlaSetup.cfg heavyMlaSpec.extensionCachedTokenBytesLocal := by
  have hinit : heavyMlaSpec.initialise = .ok mlaSetup := by rfl
  have hbounds : heavyMlaSpec.WithinBounds := ⟨by decide, by decide, by decide, by decide⟩
  refine ⟨hinit, hbounds, ?_⟩
  rw [metricsConsistent_iff_pagesHoldTokens (bounded_of_initialise hinit hbounds)]
  unfold PagesHoldTokens
  decide

end Specifications

end VAttention.Allocator
