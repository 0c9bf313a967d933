import Mathlib.Data.List.GetD
import VAttention.Core.Paging
import VAttention.Executor.Inputs
import VAttention.Lib.Exits

/-!
# Slots of the paged cache

Model of `FlashAttentionWrapper.begin_forward`.  It maps every token that the step writes to a
slot of the paged cache: the block in which the token lies according to the block table of its
sequence, and the offset in the block.

- `beginForward_ok`: if the tables are long enough for the contexts, no index is out of range.
- `writtenSlots_nodup`: if moreover the tables are disjoint, no slot is given out twice.
-/

namespace VAttention.Executor

open VAttention.Core VAttention.Lib

/-! ## The program -/

/-- `SequenceMetadata` with its `block_table`. -/
structure PagedMetadata extends SequenceMetadata where
  blockTable : Option (List Nat)

/-- How `begin_forward` is left before its end. -/
inductive ForwardExit where
  /-- A return: during memory profiling there are no block tables. -/
  | profiling
  | raised (e : PyError)
  deriving DecidableEq, Repr

/-- `table[i]`, where a negative index counts from the end. -/
def pyIndex (table : List Nat) (i : Int) : Option Nat :=
  if 0 ≤ i then table[i.toNat]?
  else if 0 ≤ table.length + i then table[(table.length + i).toNat]?
  else none

/-- The slot of the token at a position. -/
def slotAt (blockSize : Nat) (table : List Nat) (position : Int) : Except ForwardExit Int :=
  match pyIndex table (position / blockSize) with
  | some blockNumber => .ok (blockNumber * blockSize + position % blockSize)
  | none => .error (.raised .indexError)

/-- What `begin_forward` collects for a prompt. -/
structure PrefillEntry where
  queryLen : Int
  cacheLen : Nat
  blockTable : List Nat
  slots : List Int

/-- What `begin_forward` collects for a decode. -/
structure DecodeEntry where
  cacheLen : Int
  blockTable : List Nat
  slot : Int

/-- One turn of the first loop.  Slots are computed for the whole context and kept for the tokens
    of the chunk. -/
def prefillEntry (blockSize : Nat) (m : PagedMetadata) : Except ForwardExit PrefillEntry :=
  match m.blockTable with
  | none => .error .profiling
  | some table => do
    let currentPromptChunkLen := m.seq.getNextPromptChunkLen m.promptChunkLen
    let processedPromptLen := m.seq.promptTokensProcessed
    let currentTotalLen := (processedPromptLen + currentPromptChunkLen).toNat
    let numBlocksInUse := ceilDiv currentTotalLen blockSize
    let slots ← (List.range currentTotalLen).mapM fun i : Nat =>
      slotAt blockSize (table.take numBlocksInUse) i
    pure {
      queryLen := currentPromptChunkLen
      cacheLen := processedPromptLen
      blockTable := table.take numBlocksInUse
      slots := slots.drop processedPromptLen }

/-- One turn of the second loop. -/
def decodeEntry (blockSize : Nat) (m : PagedMetadata) : Except ForwardExit DecodeEntry :=
  match m.blockTable with
  | none => .error .profiling
  | some table => do
    let position : Int := m.seq.getLen - 1
    let slot ← slotAt blockSize table position
    pure { cacheLen := position, blockTable := table, slot }

/-- The attributes that `begin_forward` sets for the decodes. -/
structure DecodeMetadata where
  decodeCacheLen : List Int
  /-- Padded with -1. -/
  decodeBlockTable : List (List Int)
  currentTokensSlotMapping : List Int

/-- The attributes that `begin_forward` sets.  Those of the decodes are not set without one. -/
structure ForwardMetadata where
  prefillQueryLens : List Int
  prefillCacheLens : List Nat
  prefillBlockTables : List (List Nat)
  prefixPlusCurrentPromptTokensSlotMapping : List Int
  decodes : Option DecodeMetadata

/-- The end of `begin_forward`, for the decodes. -/
def decodeMetadata (decodes : List DecodeEntry) : Option DecodeMetadata :=
  if decodes.isEmpty then none
  else
    let maxDecodeBlocks := (decodes.map fun d => d.blockTable.length).foldl max 0
    some {
      decodeCacheLen := decodes.map DecodeEntry.cacheLen
      decodeBlockTable := decodes.map fun d =>
        d.blockTable.map Int.ofNat ++ List.replicate (maxDecodeBlocks - d.blockTable.length) (-1)
      currentTokensSlotMapping := decodes.map DecodeEntry.slot }

/-- `begin_forward`: the prompts first, then the decodes. -/
def beginForward (blockSize : Nat) (l : List PagedMetadata) :
    Except ForwardExit ForwardMetadata := do
  let prefills ← (l.filter fun m => m.isPrompt).mapM (prefillEntry blockSize)
  let decodes ← (l.filter fun m => !m.isPrompt).mapM (decodeEntry blockSize)
  pure {
    prefillQueryLens := prefills.map PrefillEntry.queryLen
    prefillCacheLens := prefills.map PrefillEntry.cacheLen
    prefillBlockTables := prefills.map PrefillEntry.blockTable
    prefixPlusCurrentPromptTokensSlotMapping := prefills.flatMap PrefillEntry.slots
    decodes := decodeMetadata decodes }

/-- All slots that the step writes. -/
def ForwardMetadata.slots (f : ForwardMetadata) : List Int :=
  f.prefixPlusCurrentPromptTokensSlotMapping ++
    (f.decodes.map DecodeMetadata.currentTokensSlotMapping).getD []

/-! ## One slot -/

variable {blockSize : Nat} {table table' : List Nat} {m : PagedMetadata}

theorem pyIndex_mem {i : Int} {blockNumber : Nat} (h : pyIndex table i = some blockNumber) :
    blockNumber ∈ table := by
  unfold pyIndex at h
  split_ifs at h
  · exact List.mem_of_getElem? h
  · exact List.mem_of_getElem? h

/-- A slot lies in a block of the table. -/
theorem slotAt_ediv (hblock : 0 < blockSize) {position slot : Int}
    (h : slotAt blockSize table position = .ok slot) :
    ∃ blockNumber ∈ table, slot / blockSize = blockNumber := by
  unfold slotAt at h
  split at h
  · rename_i blockNumber hindex
    cases h
    refine ⟨blockNumber, pyIndex_mem hindex, ?_⟩
    have hpos : (0 : Int) < blockSize := by omega
    rw [Int.add_comm, Int.add_mul_ediv_right _ _ hpos.ne',
      Int.ediv_eq_zero_of_lt (Int.emod_nonneg _ hpos.ne') (Int.emod_lt_of_pos _ hpos), Int.zero_add]
  · cases h

/-- **Disjoint tables give different slots**, whatever the positions. -/
theorem slotAt_ne_of_disjoint (hblock : 0 < blockSize) (hdisjoint : table.Disjoint table')
    {position position' slot slot' : Int} (h : slotAt blockSize table position = .ok slot)
    (h' : slotAt blockSize table' position' = .ok slot') : slot ≠ slot' := by
  rintro rfl
  obtain ⟨block, hmem, hdiv⟩ := slotAt_ediv hblock h
  obtain ⟨block', hmem', hdiv'⟩ := slotAt_ediv hblock h'
  obtain rfl : block = block' := Int.natCast_inj.mp (hdiv.symm.trans hdiv')
  exact hdisjoint hmem hmem'

/-- The slot of the token at a position that the table reaches. -/
def slotOf (blockSize : Nat) (table : List Nat) (position : Nat) : Int :=
  table.getD (position / blockSize) 0 * blockSize + (position % blockSize : Nat)

theorem slotAt_natCast (hblock : 0 < blockSize) {position : Nat}
    (h : position < table.length * blockSize) :
    slotAt blockSize table position = .ok (slotOf blockSize table position) := by
  have hindex : position / blockSize < table.length := (Nat.div_lt_iff_lt_mul hblock).mpr h
  have hblockIndex : (position : Int) / blockSize = (position / blockSize : Nat) := rfl
  rw [slotAt, pyIndex, hblockIndex, if_pos (Int.natCast_nonneg _), Int.toNat_natCast,
    List.getElem?_eq_getElem hindex, slotOf, List.getD_eq_getElem _ _ hindex]
  rfl

/-- Two positions of one sequence have different slots. -/
theorem slotOf_injOn (hblock : 0 < blockSize) (hnodup : table.Nodup) {i j : Nat}
    (hi : i < table.length * blockSize) (hj : j < table.length * blockSize)
    (h : slotOf blockSize table i = slotOf blockSize table j) : i = j := by
  have hi' : i / blockSize < table.length := (Nat.div_lt_iff_lt_mul hblock).mpr hi
  have hj' : j / blockSize < table.length := (Nat.div_lt_iff_lt_mul hblock).mpr hj
  simp only [slotOf, List.getD_eq_getElem _ _ hi', List.getD_eq_getElem _ _ hj'] at h
  norm_cast at h
  -- the offset is the slot modulo the block size, so the blocks are equal, too
  have hmod : i % blockSize = j % blockSize := by
    have := congrArg (· % blockSize) h
    simpa [Nat.mul_add_mod'] using this
  have hdiv : i / blockSize = j / blockSize := by
    rw [hmod, Nat.add_right_cancel_iff, Nat.mul_left_inj hblock.ne'] at h
    exact (hnodup.getElem_inj_iff).mp h
  rw [← Nat.div_add_mod i blockSize, hdiv, hmod, Nat.div_add_mod]

/-! ## One entry -/

/-- The table of an entry reaches its context.  A decode has a last token. -/
structure TableFits (blockSize : Nat) (m : PagedMetadata) (table : List Nat) : Prop where
  blockTable : m.blockTable = some table
  prefill : m.isPrompt = true →
    (m.seq.promptTokensProcessed + m.seq.getNextPromptChunkLen m.promptChunkLen).toNat ≤
      table.length * blockSize
  decode : m.isPrompt = false → 0 < m.seq.getLen ∧ m.seq.getLen ≤ table.length * blockSize

/-- The positions of the tokens that the step writes. -/
def writtenPositions (m : SequenceMetadata) : List Nat :=
  if m.isPrompt then
    (List.range (m.seq.promptTokensProcessed +
      m.seq.getNextPromptChunkLen m.promptChunkLen).toNat).drop m.seq.promptTokensProcessed
  else [m.seq.getLen - 1]

/-- Their slots. -/
def writtenSlots (blockSize : Nat) (m : PagedMetadata) : List Int :=
  (writtenPositions m.toSequenceMetadata).map (slotOf blockSize (m.blockTable.getD []))

theorem TableFits.lt_of_mem (h : TableFits blockSize m table) {i : Nat}
    (hi : i ∈ writtenPositions m.toSequenceMetadata) : i < table.length * blockSize := by
  unfold writtenPositions at hi
  split_ifs at hi with hprompt
  · have hlt := List.mem_range.mp (List.mem_of_mem_drop hi)
    exact hlt.trans_le (h.prefill hprompt)
  · obtain ⟨hpos, hle⟩ := h.decode (by simpa using hprompt)
    rw [List.mem_singleton.mp hi]
    omega

theorem writtenPositions_nodup (m : SequenceMetadata) : (writtenPositions m).Nodup := by
  unfold writtenPositions
  split_ifs
  · exact List.nodup_range.sublist (List.drop_sublist _ _)
  · exact List.nodup_singleton _

/-- The slots of a context; the blocks that are not in use are not looked at. -/
theorem contextSlots_ok (hblock : 0 < blockSize) {total : Nat}
    (htotal : total ≤ table.length * blockSize) :
    (List.range total).mapM (fun i : Nat =>
      slotAt blockSize (table.take (ceilDiv total blockSize)) i) =
    .ok ((List.range total).map (slotOf blockSize table)) := by
  have hslot : ∀ i ∈ List.range total, ∃ slot,
      slotAt blockSize (table.take (ceilDiv total blockSize)) (i : Nat) = .ok slot ∧
        slot = slotOf blockSize table i := by
    intro i hi
    have hlt := List.mem_range.mp hi
    -- the block of a position in the context is among the blocks in use
    have huse : i / blockSize < ceilDiv total blockSize :=
      (lt_ceilDiv_iff hblock).mpr ((Nat.div_mul_le_self i blockSize).trans_lt hlt)
    have hindex : i / blockSize < table.length :=
      (Nat.div_lt_iff_lt_mul hblock).mpr (hlt.trans_le htotal)
    have htake : i / blockSize < (table.take (ceilDiv total blockSize)).length := by
      rw [List.length_take]
      exact lt_min huse hindex
    refine ⟨_, slotAt_natCast hblock ((Nat.div_lt_iff_lt_mul hblock).mp htake), ?_⟩
    rw [slotOf, slotOf, List.getD_eq_getElem _ _ htake, List.getD_eq_getElem _ _ hindex,
      List.getElem_take]
  obtain ⟨slots, hok, hslots⟩ := exists_mapM_ok hslot
  rw [hok, ← hslots, List.map_id']

theorem prefillEntry_ok (hblock : 0 < blockSize) (h : TableFits blockSize m table)
    (hprompt : m.isPrompt = true) :
    ∃ p, prefillEntry blockSize m = .ok p ∧ p.slots = writtenSlots blockSize m := by
  unfold prefillEntry
  rw [h.blockTable]
  dsimp only
  rw [contextSlots_ok hblock (h.prefill hprompt)]
  refine ⟨_, rfl, ?_⟩
  rw [writtenSlots, writtenPositions, if_pos hprompt, h.blockTable, Option.getD_some, List.map_drop]

theorem decodeEntry_ok (hblock : 0 < blockSize) (h : TableFits blockSize m table)
    (hprompt : m.isPrompt = false) :
    ∃ d, decodeEntry blockSize m = .ok d ∧ [d.slot] = writtenSlots blockSize m := by
  obtain ⟨hpos, hle⟩ := h.decode hprompt
  have hposition : (m.seq.getLen : Int) - 1 = (m.seq.getLen - 1 : Nat) := by omega
  unfold decodeEntry
  rw [h.blockTable]
  dsimp only
  rw [hposition, slotAt_natCast hblock (by omega)]
  refine ⟨_, rfl, ?_⟩
  simp [writtenSlots, writtenPositions, hprompt, h.blockTable]

/-! ## The batch -/

variable {l : List PagedMetadata}

theorem decodeMetadata_slots (decodes : List DecodeEntry) :
    ((decodeMetadata decodes).map DecodeMetadata.currentTokensSlotMapping).getD [] =
      decodes.map DecodeEntry.slot := by
  cases decodes with
  | nil => rfl
  | cons d decodes => simp [decodeMetadata]

/-- **`begin_forward` returns** if the table of every entry reaches its context, and the slots it
    gives out are those of the written positions. -/
theorem beginForward_ok (hblock : 0 < blockSize)
    (hfits : ∀ m ∈ l, ∃ table, TableFits blockSize m table) :
    ∃ f, beginForward blockSize l = .ok f ∧ f.slots.Perm (l.flatMap (writtenSlots blockSize)) := by
  have hprefills : ∀ m ∈ l.filter fun m => m.isPrompt, ∃ p,
      prefillEntry blockSize m = .ok p ∧ p.slots = writtenSlots blockSize m := by
    intro m hm
    obtain ⟨hmem, hprompt⟩ := List.mem_filter.mp hm
    obtain ⟨table, hfit⟩ := hfits m hmem
    exact prefillEntry_ok hblock hfit hprompt
  have hdecodes : ∀ m ∈ l.filter fun m => !m.isPrompt, ∃ d,
      decodeEntry blockSize m = .ok d ∧ [d.slot] = writtenSlots blockSize m := by
    intro m hm
    obtain ⟨hmem, hprompt⟩ := List.mem_filter.mp hm
    obtain ⟨table, hfit⟩ := hfits m hmem
    exact decodeEntry_ok hblock hfit (by simpa using hprompt)
  obtain ⟨prefills, hprefillsOk, hprefillSlots⟩ := exists_mapM_ok hprefills
  obtain ⟨decodes, hdecodesOk, hdecodeSlots⟩ := exists_mapM_ok hdecodes
  refine ⟨_, by rw [beginForward, hprefillsOk, hdecodesOk]; rfl, ?_⟩
  -- the prompts and the decodes are the batch in another order
  have hsplit : prefills.flatMap PrefillEntry.slots ++ decodes.map DecodeEntry.slot =
      (l.filter (fun m => m.isPrompt) ++ l.filter fun m => !m.isPrompt).flatMap
        (writtenSlots blockSize) := by
    rw [List.map_eq_flatMap, List.flatMap_append]
    simp only [List.flatMap_def, hprefillSlots, hdecodeSlots]
  rw [ForwardMetadata.slots, decodeMetadata_slots, hsplit]
  exact (List.filter_append_perm _ l).flatMap_right _

/-- **No slot is given out twice** if the tables have no block in common. -/
theorem writtenSlots_nodup (hblock : 0 < blockSize)
    (hfits : ∀ m ∈ l, ∃ table, TableFits blockSize m table ∧ table.Nodup)
    (hdisjoint : l.Pairwise fun m m' => ∀ table table', m.blockTable = some table →
      m'.blockTable = some table' → table.Disjoint table') :
    (l.flatMap (writtenSlots blockSize)).Nodup := by
  rw [List.nodup_flatMap]
  constructor
  -- the slots of one entry
  · intro m hm
    obtain ⟨table, hfit, hnodup⟩ := hfits m hm
    rw [writtenSlots, hfit.blockTable, Option.getD_some]
    refine (writtenPositions_nodup _).map_on fun i hi j hj heq => ?_
    exact slotOf_injOn hblock hnodup (hfit.lt_of_mem hi) (hfit.lt_of_mem hj) heq
  · refine hdisjoint.imp_of_mem fun {m m'} hm hm' htables => ?_
    -- a slot of two entries would be in a block of both tables
    obtain ⟨table, hfit, -⟩ := hfits m hm
    obtain ⟨table', hfit', -⟩ := hfits m' hm'
    rw [Function.onFun, writtenSlots, writtenSlots, hfit.blockTable, hfit'.blockTable]
    intro slot hslot hslot'
    obtain ⟨i, hi, rfl⟩ := List.mem_map.mp hslot
    obtain ⟨j, hj, heq⟩ := List.mem_map.mp hslot'
    refine slotAt_ne_of_disjoint hblock (htables table table' hfit.blockTable hfit'.blockTable)
      (slotAt_natCast hblock (hfit.lt_of_mem hi)) (slotAt_natCast hblock (hfit'.lt_of_mem hj))
      heq.symm

/-- Two sequences of a manager never share a slot, at whatever positions. -/
def ExclusiveSlots (blockSize : Nat) (m : PagedBlockManager) : Prop :=
  ∀ a b table table', a ≠ b → m.blockTables.lookup a = some table →
    m.blockTables.lookup b = some table' → ∀ position position' slot slot',
      slotAt blockSize table position = .ok slot → slotAt blockSize table' position' = .ok slot' →
        slot ≠ slot'

theorem exclusiveSlots_of_partitions {numBlocks : Nat} {m : PagedBlockManager}
    (hblock : 0 < blockSize) (h : PagedBlockManager.Partitions numBlocks m) :
    ExclusiveSlots blockSize m :=
  fun _ _ _ _ hne hlookup hlookup' _ _ _ _ =>
    slotAt_ne_of_disjoint hblock (disjoint_of_lookup h.nodup hne hlookup hlookup')

end VAttention.Executor
