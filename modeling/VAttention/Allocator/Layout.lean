import Mathlib.Tactic.Ring
import Mathlib.Tactic.Linarith
import VAttention.Allocator.CacheSpec
import VAttention.Allocator.Conservation
import VAttention.Lib.Strides

/-!
# Tensor rows against slot windows

Two address computations meet here.  A component tensor has contiguous strides, so row `r`
starts at `r * max_context_length * token_bytes`.  The allocator maps the pages of slot `r`
at `r * virt_buff_size_per_req`, a whole number of pages.  An element of row `r` is backed
by a page of slot `r` only where the two agree.

## Main results

- `elementsInOwnSlot_iff`: in every state, the elements of the mapped tokens lie in the
  mapped pages of their own slot exactly when the rows do not drift away from the windows
  (`RowsMeetWindows`), which without overflow means that a row fills its window.
- `mla_element_outside_own_slot`: an MLA cache where they do drift.
-/

namespace VAttention.Allocator

open VAttention.Lib

/-- Number of bytes of one token of a tensor with shape `[batch, context, ...]`. -/
def VTensor.tokenBytes (t : VTensor) : Nat := (t.shape.drop 2).prod * t.itemsize

/-- Number of tokens of slot `r` that can be stored: mapped, and within the context. -/
def storableTokens (cfg : Config) (mapped : Nat → Nat) (r : Nat) : Nat :=
  min (mapped r * cfg.tokensPerPage) cfg.maxContextLength

/-- The bytes of the element at `index` lie in the pages mapped for slot `r`. -/
def ElementInSlot (cfg : Config) (mapped : Nat → Nat) (t : VTensor) (r : Nat)
    (index : List Nat) : Prop :=
  r * cfg.virtBuffSizePerReq ≤ contiguousOffset t.shape index * t.itemsize ∧
    (contiguousOffset t.shape index + 1) * t.itemsize ≤
      r * cfg.virtBuffSizePerReq + mapped r * cfg.pageSize

/-- Every element of every storable token of every slot lies in the slot's own pages. -/
def ElementsInOwnSlot (setup : Setup) (mapped : Nat → Nat) : Prop :=
  ∀ t ∈ setup.tensors, ∀ r token rest, r < setup.cfg.maxBatchSize →
    token < storableTokens setup.cfg mapped r → InShape t.shape (r :: token :: rest) →
    ElementInSlot setup.cfg mapped t r (r :: token :: rest)

/-- The row of slot `r` starts no earlier than its window, and its storable tokens end
    within the mapped pages although every row before it pushed it further on. -/
def RowMeetsWindow (cfg : Config) (mapped : Nat → Nat) (t : VTensor) (r : Nat) : Prop :=
  (r = 0 ∨ cfg.virtBuffSizePerReq ≤ cfg.maxContextLength * t.tokenBytes) ∧
    r * (cfg.maxContextLength * t.tokenBytes - cfg.virtBuffSizePerReq) +
      storableTokens cfg mapped r * t.tokenBytes ≤ mapped r * cfg.pageSize

/-- `RowMeetsWindow` for every tensor and every slot that has pages. -/
def RowsMeetWindows (setup : Setup) (mapped : Nat → Nat) : Prop :=
  ∀ t ∈ setup.tensors, ∀ r, r < setup.cfg.maxBatchSize → mapped r ≠ 0 →
    RowMeetsWindow setup.cfg mapped t r

/-- A row is exactly as long as a slot's window (or is the first row), and the mapped
    pages hold the storable tokens. -/
def RowsFillWindows (setup : Setup) (mapped : Nat → Nat) : Prop :=
  ∀ t ∈ setup.tensors, ∀ r, r < setup.cfg.maxBatchSize → mapped r ≠ 0 →
    (r = 0 ∨ setup.cfg.maxContextLength * t.tokenBytes = setup.cfg.virtBuffSizePerReq) ∧
      storableTokens setup.cfg mapped r * t.tokenBytes ≤ mapped r * setup.cfg.pageSize

/-! ## Tensors produced by initialisation -/

/-- A tensor with the batch and context dimensions of the configuration and non-empty
    tokens. -/
def VTensor.Fits (cfg : Config) (t : VTensor) : Prop :=
  ∃ rest, t.shape = cfg.maxBatchSize :: cfg.maxContextLength :: rest ∧ 0 < rest.prod

theorem allocVtensor_shape {shape : List Nat} {pageSize minRequestBytes itemsize : Nat}
    {t : VTensor} (h : allocVtensor shape pageSize minRequestBytes itemsize = .ok t) :
    t.shape = shape := by
  unfold allocVtensor at h
  simp only [seq_eq_ok, raiseIf_eq_ok, exists_const] at h
  obtain ⟨-, -, -, -, -, h⟩ := h
  cases h
  rfl

theorem allocComponentTensors_fits {cfg : Config} {itemsize : Nat} {kRest vRest : List Nat}
    {setup : Setup} (hk : 0 < kRest.prod) (hv : 0 < vRest.prod)
    (h : allocComponentTensors cfg itemsize (cfg.maxBatchSize :: cfg.maxContextLength :: kRest)
      (cfg.maxBatchSize :: cfg.maxContextLength :: vRest) = .ok setup) :
    setup.cfg = cfg ∧ ∀ t ∈ setup.tensors, t.Fits cfg := by
  unfold allocComponentTensors at h
  simp only [seq_eq_ok] at h
  obtain ⟨kTensor, hkT, vTensor, hvT, hres⟩ := h
  cases hres
  refine ⟨rfl, fun t ht => ?_⟩
  rcases List.mem_append.mp ht with ht | ht
  · obtain ⟨-, -, rfl⟩ := List.mem_map.mp ht
    exact ⟨kRest, allocVtensor_shape hkT, hk⟩
  · obtain ⟨-, -, rfl⟩ := List.mem_map.mp ht
    exact ⟨vRest, allocVtensor_shape hvT, hv⟩

theorem mkConfig_eq_ok {layers batch context page tpp : Nat} {mega : Bool} {cfg : Config}
    (h : mkConfig layers batch context page tpp mega = .ok cfg) :
    cfg.maxBatchSize = batch ∧ cfg.maxContextLength = context ∧ cfg.numLayers = layers ∧
      cfg.pageSize = page ∧ cfg.tokensPerPage = tpp ∧ cfg.megacacheEnabled = mega := by
  unfold mkConfig at h
  split at h
  case isFalse => cases h
  split at h
  case isFalse => cases h
  split at h
  case isFalse => cases h
  cases h
  exact ⟨rfl, rfl, rfl, rfl, rfl, rfl⟩

/-- The facts about a checked specification that the layout rests on. -/
structure VAttentionInitSpec.Checked (spec : VAttentionInitSpec) : Prop where
  numLayers_pos : 0 < spec.cacheSpec.numLayers
  numKvHeads_pos : 0 < spec.cacheSpec.numKvHeads
  headSize_pos : 0 < spec.cacheSpec.headSize
  tokenDim_pos : ∀ c ∈ spec.cacheSpec.cacheComponents, 0 < c.tokenDim
  maxContextLength_pos : 0 < spec.maxContextLength

theorem VAttentionInitSpec.checked_of_postInit {spec : VAttentionInitSpec}
    (h : spec.postInit = .ok ()) : spec.Checked := by
  unfold VAttentionInitSpec.postInit VAttentionCacheSpec.postInit at h
  simp only [seq_eq_ok, raiseIf_eq_ok, exists_const, beq_eq_false_iff_ne] at h
  obtain ⟨⟨⟩, ⟨⟨⟩, hcomp, -, -, -, -, -, -, hlayers, hheads, hsize, -⟩, -, hctx⟩ := h
  refine ⟨Nat.pos_of_ne_zero hlayers, Nat.pos_of_ne_zero hheads, Nat.pos_of_ne_zero hsize,
    fun c hc => ?_, Nat.pos_of_ne_zero hctx⟩
  have hc' := forM_ok_of_mem hcomp c hc
  simp only [CacheComponentSpec.postInit, seq_eq_ok, raiseIf_eq_ok, beq_eq_false_iff_ne] at hc'
  obtain ⟨-, -, hdim⟩ := hc'
  exact Nat.pos_of_ne_zero hdim

/-- With or without a dimension for the layers, a shape starts with the batch and the context. -/
theorem exists_rest_of_layout (mega : Bool) (batch context : Nat) {layers : Nat} {tail : List Nat}
    (hlayers : 0 < layers) (htail : 0 < tail.prod) :
    ∃ rest : List Nat, 0 < rest.prod ∧
      (if mega then batch :: context :: layers :: tail else batch :: context :: tail) =
        batch :: context :: rest := by
  split
  · refine ⟨layers :: tail, ?_, rfl⟩
    rw [List.prod_cons]
    exact Nat.mul_pos hlayers htail
  · exact ⟨tail, htail, rfl⟩

/-- `init_kv_block_size` after the entry point that the architecture selects: the dense path
    recomputes the tokens per page, the component path takes those of the specification. -/
def VAttentionInitSpec.extensionTokensPerPage (spec : VAttentionInitSpec) : Nat :=
  let s := spec.cacheSpec
  let tokenBytes := s.numKvHeads * s.headSize * spec.dtype.itemsize
  match s.architecture with
  | .denseKv => s.pageSize / (if s.megacache then tokenBytes * s.numLayers else tokenBytes)
  | .mla => s.tokensPerPage

theorem VAttentionCacheSpec.tokensPerPage_pos_of_postInit {s : VAttentionCacheSpec}
    (h : s.postInit = .ok ()) : 0 < s.tokensPerPage := by
  unfold VAttentionCacheSpec.postInit at h
  simp only [seq_eq_ok, raiseIf_eq_ok, exists_const, beq_eq_false_iff_ne] at h
  obtain ⟨⟨⟩, -, -, htpp, -⟩ := h
  exact Nat.pos_of_ne_zero htpp

/-- What initialisation leaves, by either entry point: the configuration of the specification,
    and tensors with its batch and context dimensions. -/
theorem initialise_parts {spec : VAttentionInitSpec} {setup : Setup}
    (h : spec.initialise = .ok setup) :
    spec.Checked ∧
      mkConfig spec.cacheSpec.numLayers spec.maxBatchSize spec.maxContextLength
        spec.cacheSpec.pageSize spec.extensionTokensPerPage spec.cacheSpec.megacache =
          .ok setup.cfg ∧
      ∀ t ∈ setup.tensors, t.Fits setup.cfg := by
  obtain ⟨⟨⟩, hpost, h⟩ := seq_eq_ok.mp h
  have hok := VAttentionInitSpec.checked_of_postInit hpost
  cases harch : spec.cacheSpec.architecture with
  | denseKv =>
    rw [harch] at h
    obtain ⟨cfg, hcfg, h⟩ := seq_eq_ok.mp h
    obtain ⟨hbatch, hctx, -⟩ := mkConfig_eq_ok hcfg
    -- keys and values have one shape
    have htail : 0 < [spec.cacheSpec.numKvHeads, spec.cacheSpec.headSize].prod := by
      simp [hok.numKvHeads_pos, hok.headSize_pos]
    obtain ⟨rest, hrest, hshape⟩ := exists_rest_of_layout spec.cacheSpec.megacache
      cfg.maxBatchSize cfg.maxContextLength hok.numLayers_pos htail
    simp only [← hbatch, ← hctx, hshape] at h
    obtain ⟨rfl, hfits⟩ := allocComponentTensors_fits hrest hrest h
    simp only [VAttentionInitSpec.extensionTokensPerPage, harch]
    exact ⟨hok, hcfg, hfits⟩
  | mla =>
    rw [harch] at h
    obtain ⟨itemsize, -, h⟩ := seq_eq_ok.mp h
    match hcomps : spec.cacheSpec.cacheComponents with
    | [c₀, c₁] =>
      rw [hcomps] at h
      obtain ⟨cfg, hcfg, h⟩ := seq_eq_ok.mp h
      obtain ⟨hbatch, hctx, -⟩ := mkConfig_eq_ok hcfg
      -- the latent and the rope part have shapes of their own
      have hdim : ∀ c ∈ spec.cacheSpec.cacheComponents, 0 < [c.tokenDim].prod := by
        intro c hc
        rw [List.prod_singleton]
        exact hok.tokenDim_pos c hc
      obtain ⟨kRest, hk, hkShape⟩ := exists_rest_of_layout spec.cacheSpec.megacache
        cfg.maxBatchSize cfg.maxContextLength hok.numLayers_pos (hdim c₀ (by simp [hcomps]))
      obtain ⟨vRest, hv, hvShape⟩ := exists_rest_of_layout spec.cacheSpec.megacache
        cfg.maxBatchSize cfg.maxContextLength hok.numLayers_pos (hdim c₁ (by simp [hcomps]))
      simp only [← hbatch, ← hctx, hkShape, hvShape] at h
      obtain ⟨rfl, hfits⟩ := allocComponentTensors_fits hk hv h
      -- a checked specification leaves nothing for the extension to recompute
      obtain ⟨⟨⟩, hspec, -⟩ := seq_eq_ok.mp hpost
      have htpp := VAttentionCacheSpec.tokensPerPage_pos_of_postInit hspec
      rw [if_neg (Nat.ne_of_gt htpp)] at hcfg
      simp only [VAttentionInitSpec.extensionTokensPerPage, harch]
      exact ⟨hok, hcfg, hfits⟩
    -- `init_kvcache_component_spec` takes exactly two components
    | [] => rw [hcomps] at h; cases h
    | [_] => rw [hcomps] at h; cases h
    | _ :: _ :: _ :: _ => rw [hcomps] at h; cases h

/-- **Initialised tensors**: each has the configuration's batch and context dimensions. -/
theorem initialise_fits {spec : VAttentionInitSpec} {setup : Setup}
    (h : spec.initialise = .ok setup) :
    0 < setup.cfg.maxContextLength ∧ ∀ t ∈ setup.tensors, t.Fits setup.cfg := by
  obtain ⟨hok, hcfg, hfits⟩ := initialise_parts h
  obtain ⟨-, hctx, -⟩ := mkConfig_eq_ok hcfg
  exact ⟨hctx ▸ hok.maxContextLength_pos, hfits⟩

/-! ## Elements, tokens and rows -/

/-- The elements of the first `n` tokens of row `r` fill a contiguous range of bytes. -/
theorem elements_in_range_iff {batch context : Nat} {rest : List Nat} (itemsize lo hi : Nat)
    (hrest : 0 < rest.prod) {r n : Nat} (hr : r < batch) (hn : n ≤ context) :
    (∀ token index, token < n → InShape (batch :: context :: rest) (r :: token :: index) →
      lo ≤ contiguousOffset (batch :: context :: rest) (r :: token :: index) * itemsize ∧
        (contiguousOffset (batch :: context :: rest) (r :: token :: index) + 1) * itemsize ≤ hi) ↔
      n = 0 ∨ (lo ≤ r * (context * (rest.prod * itemsize)) ∧
        r * (context * (rest.prod * itemsize)) + n * (rest.prod * itemsize) ≤ hi) := by
  -- the offset of an element is that of its row, its token and its place in the token
  have hoff : ∀ token index, contiguousOffset (batch :: context :: rest) (r :: token :: index) =
      r * (context * rest.prod) + (token * rest.prod + contiguousOffset rest index) := by
    intro token index
    rw [contiguousOffset_cons, contiguousOffset_cons, List.prod_cons]
  constructor
  · intro h
    rcases Nat.eq_zero_or_pos n with h0 | hpos
    · exact .inl h0
    refine .inr ⟨?_, ?_⟩
    · -- the first element of the first token
      obtain ⟨index, hin, hzero⟩ := exists_contiguousOffset_eq hrest
      have hfirst := (h 0 index hpos (.cons hr (.cons (by omega) hin))).1
      rw [hoff, hzero] at hfirst
      calc lo ≤ (r * (context * rest.prod) + (0 * rest.prod + 0)) * itemsize := hfirst
        _ = r * (context * (rest.prod * itemsize)) := by ring
    · -- the last element of the last token
      obtain ⟨index, hin, hlast⟩ :=
        exists_contiguousOffset_eq (n := rest.prod - 1) (Nat.pred_lt_of_lt hrest)
      have hend := (h (n - 1) index (by omega) (.cons hr (.cons (by omega) hin))).2
      rw [hoff, hlast] at hend
      obtain ⟨m, rfl⟩ : ∃ m, n = m + 1 := ⟨n - 1, by omega⟩
      obtain ⟨w, hw⟩ : ∃ w, rest.prod = w + 1 := ⟨rest.prod - 1, by omega⟩
      rw [hw, Nat.add_sub_cancel, Nat.add_sub_cancel] at hend
      rw [hw]
      calc r * (context * ((w + 1) * itemsize)) + (m + 1) * ((w + 1) * itemsize)
          = (r * (context * (w + 1)) + (m * (w + 1) + w) + 1) * itemsize := by ring
        _ ≤ hi := hend
  · rintro (rfl | ⟨hlo, hhi⟩) token index htoken hin
    · cases htoken
    obtain ⟨-, -, hin⟩ : r < batch ∧ token < context ∧ InShape rest index := by
      simpa [InShape] using hin
    -- an element lies between the begin of the row and the end of its token
    have hlt := contiguousOffset_lt hin
    rw [hoff]
    constructor
    · calc lo ≤ r * (context * rest.prod) * itemsize := by
            rw [Nat.mul_assoc, Nat.mul_assoc]; exact hlo
        _ ≤ _ := Nat.mul_le_mul_right _ (Nat.le_add_right ..)
    · calc (r * (context * rest.prod) + (token * rest.prod + contiguousOffset rest index) + 1) *
            itemsize
          ≤ (r * (context * rest.prod) + (token + 1) * rest.prod) * itemsize := by
            refine Nat.mul_le_mul_right _ ?_
            rw [Nat.succ_mul]
            omega
        _ ≤ (r * (context * rest.prod) + n * rest.prod) * itemsize := by
            refine Nat.mul_le_mul_right _ (Nat.add_le_add_left ?_ _)
            exact Nat.mul_le_mul_right _ htoken
        _ = r * (context * (rest.prod * itemsize)) + n * (rest.prod * itemsize) := by ring
        _ ≤ hi := hhi

/-- Row `r` at stride `stride` against window `r` of size `window`. -/
theorem drift_iff {r stride window used mapped : Nat} :
    (r * window ≤ r * stride ∧ r * stride + used ≤ r * window + mapped) ↔
      (r = 0 ∨ window ≤ stride) ∧ r * (stride - window) + used ≤ mapped := by
  rcases Nat.eq_zero_or_pos r with rfl | hr
  · simp
  have hle : r * window ≤ r * stride ↔ window ≤ stride := Nat.mul_le_mul_left_iff hr
  rw [hle]
  constructor
  · rintro ⟨hws, hend⟩
    refine ⟨.inr hws, ?_⟩
    rw [Nat.mul_sub]
    have := Nat.mul_le_mul_left r hws
    omega
  · rintro ⟨h0 | hws, hend⟩
    · omega
    refine ⟨hws, ?_⟩
    rw [Nat.mul_sub] at hend
    have := Nat.mul_le_mul_left r hws
    omega

theorem elementsInOwnSlot_iff_rowsMeetWindows {setup : Setup}
    (hctx : 0 < setup.cfg.maxContextLength) (hfits : ∀ t ∈ setup.tensors, t.Fits setup.cfg)
    (mapped : Nat → Nat) :
    ElementsInOwnSlot setup mapped ↔ RowsMeetWindows setup mapped := by
  -- one tensor and one slot at a time
  have hone : ∀ t ∈ setup.tensors, ∀ r, r < setup.cfg.maxBatchSize →
      ((∀ token rest, token < storableTokens setup.cfg mapped r →
          InShape t.shape (r :: token :: rest) →
          ElementInSlot setup.cfg mapped t r (r :: token :: rest)) ↔
        (mapped r ≠ 0 → RowMeetsWindow setup.cfg mapped t r)) := by
    intro t ht r hr
    obtain ⟨rest, hshape, hrest⟩ := hfits t ht
    have hbytes : t.tokenBytes = rest.prod * t.itemsize := by rw [VTensor.tokenBytes, hshape]; rfl
    -- a slot stores a token exactly if it has a page
    have hzero : storableTokens setup.cfg mapped r = 0 ↔ mapped r = 0 := by
      have := setup.cfg.tokensPerPage_pos
      unfold storableTokens
      rw [Nat.min_eq_zero_iff, Nat.mul_eq_zero]
      omega
    have hrange := elements_in_range_iff t.itemsize (r * setup.cfg.virtBuffSizePerReq)
      (r * setup.cfg.virtBuffSizePerReq + mapped r * setup.cfg.pageSize) hrest hr
      (Nat.min_le_right (mapped r * setup.cfg.tokensPerPage) setup.cfg.maxContextLength)
    -- the range of the row against the window, in terms of the drift
    rw [drift_iff] at hrange
    simp only [ElementInSlot, RowMeetsWindow, hbytes, hshape]
    refine hrange.trans ?_
    change (storableTokens setup.cfg mapped r = 0 ∨ _) ↔ _
    rw [hzero]
    tauto
  constructor
  · intro h t ht r hr
    exact (hone t ht r hr).mp fun token rest htok => h t ht r token rest hr htok
  · intro h t ht r token rest hr
    exact (hone t ht r hr).mpr (h t ht r hr) token rest

/-! ## Rows that fill their windows -/

/-- The blocks of a length hold it, and less than a page more. -/
theorem Config.tokensToPages_mul {cfg : Config} {n : Nat} (h : n + cfg.tokensPerPage ≤ u64Size) :
    n ≤ cfg.tokensToPages n * cfg.tokensPerPage ∧
      cfg.tokensToPages n * cfg.tokensPerPage < n + cfg.tokensPerPage := by
  have hpos := cfg.tokensPerPage_pos
  have hdiv := Nat.div_add_mod (n + cfg.tokensPerPage - 1) cfg.tokensPerPage
  have hmod := Nat.mod_lt (n + cfg.tokensPerPage - 1) hpos
  rw [tokensToPages, Nat.mod_eq_of_lt (by omega), Nat.mul_comm]
  omega

/-- The sizing of `init_buffer_sizes` stays within `u64`. -/
structure Config.NoOverflow (cfg : Config) : Prop where
  context : cfg.maxContextLength + cfg.tokensPerPage ≤ u64Size
  window : cfg.maxPagesPerReq * cfg.pageSize < u64Size

theorem Config.NoOverflow.virtBuffSizePerReq_eq {cfg : Config} (h : cfg.NoOverflow) :
    cfg.virtBuffSizePerReq = cfg.maxPagesPerReq * cfg.pageSize :=
  Nat.mod_eq_of_lt h.window

theorem Config.NoOverflow.context_le {cfg : Config} (h : cfg.NoOverflow) :
    cfg.maxContextLength ≤ cfg.maxPagesPerReq * cfg.tokensPerPage :=
  (Config.tokensToPages_mul h.context).1

/-- Without overflow a row that starts at or after its window and still fits the mapped
    pages is exactly as long as the window. -/
theorem stride_eq_window_of_fits {cfg : Config} (hover : cfg.NoOverflow) {m w : Nat}
    (hpos : m ≠ 0) (hm : m ≤ cfg.maxPagesPerReq)
    (hfit : min (m * cfg.tokensPerPage) cfg.maxContextLength * w ≤ m * cfg.pageSize)
    (hle : cfg.virtBuffSizePerReq ≤ cfg.maxContextLength * w) :
    cfg.maxContextLength * w = cfg.virtBuffSizePerReq := by
  refine Nat.le_antisymm ?_ hle
  rw [hover.virtBuffSizePerReq_eq]
  rcases Nat.le_total (m * cfg.tokensPerPage) cfg.maxContextLength with hlt | hge
  · -- the mapped pages end before the context does: a page holds its tokens
    rw [min_eq_left hlt, Nat.mul_assoc] at hfit
    have hpage : cfg.tokensPerPage * w ≤ cfg.pageSize :=
      Nat.le_of_mul_le_mul_left hfit (Nat.pos_of_ne_zero hpos)
    calc cfg.maxContextLength * w
        ≤ cfg.maxPagesPerReq * cfg.tokensPerPage * w := Nat.mul_le_mul_right _ hover.context_le
      _ = cfg.maxPagesPerReq * (cfg.tokensPerPage * w) := Nat.mul_assoc ..
      _ ≤ cfg.maxPagesPerReq * cfg.pageSize := Nat.mul_le_mul_left _ hpage
  · -- the whole context is mapped
    rw [min_eq_right hge] at hfit
    exact hfit.trans (Nat.mul_le_mul_right _ hm)

theorem rowsMeetWindows_iff_rowsFillWindows {setup : Setup} (hover : setup.cfg.NoOverflow)
    {mapped : Nat → Nat}
    (hmapped : ∀ r, r < setup.cfg.maxBatchSize → mapped r ≤ setup.cfg.maxPagesPerReq) :
    RowsMeetWindows setup mapped ↔ RowsFillWindows setup mapped := by
  constructor
  · intro h t ht r hr hpos
    obtain ⟨hstart, hend⟩ := h t ht r hr hpos
    -- a drift only makes less room
    have hfit : storableTokens setup.cfg mapped r * t.tokenBytes ≤ mapped r * setup.cfg.pageSize :=
      (Nat.le_add_left ..).trans hend
    exact ⟨hstart.imp_right (stride_eq_window_of_fits hover hpos (hmapped r hr) hfit), hfit⟩
  · intro h t ht r hr hpos
    obtain ⟨hfill, hfit⟩ := h t ht r hr hpos
    refine ⟨hfill.imp_right fun heq => heq.ge, ?_⟩
    rcases hfill with rfl | heq
    · rwa [Nat.zero_mul, Nat.zero_add]
    · rwa [heq, Nat.sub_self, Nat.mul_zero, Nat.zero_add]

/-- **Rows against windows**: for every cache specification that initialises, whatever
    pages are mapped, each element of a storable token lies in the mapped pages of its own
    slot exactly when the rows do not drift off the windows.  Without overflow, and with
    the page counts the allocator keeps, this says that each row fills its window. -/
theorem elementsInOwnSlot_iff {spec : VAttentionInitSpec} {setup : Setup}
    (hinit : spec.initialise = .ok setup) (mapped : Nat → Nat) :
    (ElementsInOwnSlot setup mapped ↔ RowsMeetWindows setup mapped) ∧
      (setup.cfg.NoOverflow →
        (∀ r, r < setup.cfg.maxBatchSize → mapped r ≤ setup.cfg.maxPagesPerReq) →
        (ElementsInOwnSlot setup mapped ↔ RowsFillWindows setup mapped)) := by
  obtain ⟨hctx, hfits⟩ := initialise_fits hinit
  have hiff := elementsInOwnSlot_iff_rowsMeetWindows hctx hfits mapped
  refine ⟨hiff, fun hover hmapped => ?_⟩
  exact hiff.trans (rowsMeetWindows_iff_rowsFillWindows hover hmapped)

/-- A dense cache with one head of 64 half-precision numbers, 64 KB pages, two slots and a
    context of 1024 tokens: a row of 128 KB is a window of two pages. -/
def denseSpec : VAttentionInitSpec where
  cacheSpec := {
    architecture := .denseKv
    megacache := false
    pageSize := 65536
    tokensPerPage := 512
    cachedTokenBytesPerLayer := 256
    cachedTokenBytesLocal := 256
    pageBufferTokenBytes := 128
    dtypeSize := 2
    numLayers := 1
    numKvHeads := 1
    headSize := 64
    cacheComponents := [⟨"k", 64⟩, ⟨"v", 64⟩]
    mlaKvLoraRank := none
    mlaQkRopeHeadDim := none }
  maxBatchSize := 2
  maxContextLength := 1024
  dtype := ⟨"float16", 2, Nat.two_pos⟩

/-- Configuration of `denseSpec`. -/
def denseSetup : Setup where
  cfg := {
    numLayers := 1
    maxBatchSize := 2
    maxContextLength := 1024
    pageSize := 65536
    tokensPerPage := 512
    megacacheEnabled := false
    numLayers_pos := Nat.one_pos
    pageSize_dvd := smallPage_dvd_u64Size
    tokensPerPage_pos := by decide }
  tensors := [⟨[2, 1024, 1, 64], 2, 262144⟩, ⟨[2, 1024, 1, 64], 2, 262144⟩]

/-- With both slots fully mapped, every element of `denseSpec`'s tensors is in its slot. -/
theorem dense_elements_in_own_slot :
    denseSpec.initialise = .ok denseSetup ∧ ElementsInOwnSlot denseSetup (fun _ => 2) := by
  have hinit : denseSpec.initialise = .ok denseSetup := by rfl
  have hpages : denseSetup.cfg.maxPagesPerReq = 2 := by decide
  have hwindow : denseSetup.cfg.virtBuffSizePerReq = 131072 := by decide
  have hover : denseSetup.cfg.NoOverflow := ⟨by decide, by rw [hpages]; decide⟩
  have hiff := (elementsInOwnSlot_iff hinit (fun _ => 2)).2 hover fun r _ => hpages.ge
  refine ⟨hinit, hiff.mpr fun t ht r _ _ => ?_⟩
  have hbytes : t.tokenBytes = 128 := by
    simp only [denseSetup, List.mem_cons, List.not_mem_nil, or_false, or_self] at ht
    subst ht
    decide
  have hstore : storableTokens denseSetup.cfg (fun _ => 2) r = 1024 := by
    have hle : 1024 ≤ 2 * 512 := by decide
    exact Nat.min_eq_right hle
  rw [hbytes, hwindow, hstore]
  refine ⟨.inr (by decide), ?_⟩
  show 1024 * 128 ≤ 2 * 65536
  norm_num

/-- An MLA cache with a latent of 512 and a rope part of 64 half-precision numbers, 64 KB
    pages, two slots and a context of 1024 tokens. -/
def mlaSpec : VAttentionInitSpec where
  cacheSpec := {
    architecture := .mla
    megacache := false
    pageSize := 65536
    tokensPerPage := 56
    cachedTokenBytesPerLayer := 1152
    cachedTokenBytesLocal := 1152
    pageBufferTokenBytes := 1152
    dtypeSize := 2
    numLayers := 1
    numKvHeads := 1
    headSize := 64
    cacheComponents := [⟨"kv_latent", 512⟩, ⟨"k_rope", 64⟩]
    mlaKvLoraRank := some 512
    mlaQkRopeHeadDim := some 64 }
  maxBatchSize := 2
  maxContextLength := 1024
  dtype := ⟨"float16", 2, Nat.two_pos⟩

/-- Configuration of `mlaSpec`: windows of 19 pages, rows of 16 and of 2 pages. -/
def mlaSetup : Setup where
  cfg := {
    numLayers := 1
    maxBatchSize := 2
    maxContextLength := 1024
    pageSize := 65536
    tokensPerPage := 56
    megacacheEnabled := false
    numLayers_pos := Nat.one_pos
    pageSize_dvd := smallPage_dvd_u64Size
    tokensPerPage_pos := by decide }
  tensors := [⟨[2, 1024, 512], 2, 2490368⟩, ⟨[2, 1024, 64], 2, 2490368⟩]

/-- Page counts after one synchronous step with one token in each slot of `mlaSetup`. -/
def mlaMappedPages : Nat → Nat :=
  (runCalls mlaSetup.cfg [.step (fun _ => 1) true]
    (reservePhysicalPages mlaSetup.cfg id 262144 State.init)).mappedPages

/-- The first token of the second row starts three pages before the second window, in the
    region of the first slot. -/
theorem mla_element_outside_own_slot :
    mlaSpec.initialise = .ok mlaSetup ∧ ¬ ElementsInOwnSlot mlaSetup mlaMappedPages := by
  refine ⟨by rfl, fun h => ?_⟩
  have hmapped : 0 < storableTokens mlaSetup.cfg mlaMappedPages 1 := by decide
  have hin : InShape [2, 1024, 512] [1, 0, 0] :=
    .cons (by decide) (.cons (by decide) (.cons (by decide) .nil))
  have hstart := (h ⟨[2, 1024, 512], 2, 2490368⟩ List.mem_cons_self 1 0 [0] (by decide) hmapped
    hin).1
  exact absurd hstart (by decide)

end VAttention.Allocator
