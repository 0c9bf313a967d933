import VAttention.Core.Blocks
import VAttention.Lib.Loop

/-!
# Logical token blocks as objects

`Sequence` keeps a logical block as the list of the tokens it holds.  In the source a block is an
object with `block_size` slots, a count of those in use and an assertion against overfilling it,
and `_append_tokens_to_blocks` is a `while` loop that moves a cursor by the empty slots of the last
block.  Here are the objects and the loop as they are, and the lists as what they stand for.

## Layers

- `Filled`: what the lists of tokens look like, and that `appendTokensLoop` keeps it.
- `appendTurn` and `appendLoop`: the loop over objects.  Each turn of it is a turn over the lists
  (`appendTurn_eq_ok`), and it ends (`appendLoop_eq_ok`).
-/

namespace VAttention.Core

open VAttention.Lib

variable {blockSize : Nat} {blocks init : List (List TokenId)} {last tokens tokenIds : List TokenId}

/-! ## Filled lists -/

/-- The blocks hold the tokens in order, each block but the last is full, and none is empty. -/
structure Filled (blockSize : Nat) (blocks : List (List TokenId)) (tokens : List TokenId) :
    Prop where
  flatten_eq : blocks.flatten = tokens
  full : ∀ b ∈ blocks.dropLast, b.length = blockSize
  last : ∀ b ∈ blocks.getLast?, 0 < b.length ∧ b.length ≤ blockSize

theorem filled_nil (blockSize : Nat) : Filled blockSize [] [] where
  flatten_eq := rfl
  full := by simp
  last := by simp

/-- Seen from its last block. -/
theorem filled_concat_iff : Filled blockSize (init ++ [last]) tokens ↔
    init.flatten ++ last = tokens ∧ (∀ b ∈ init, b.length = blockSize) ∧
      0 < last.length ∧ last.length ≤ blockSize := by
  constructor
  · intro h
    refine ⟨?_, ?_, ?_⟩
    · simpa using h.flatten_eq
    · simpa using h.full
    · exact h.last last (by simp)
  · rintro ⟨htokens, hfull, hlast⟩
    refine ⟨?_, ?_, ?_⟩
    · simpa using htokens
    · simpa using hfull
    · intro b hb
      obtain rfl : last = b := by simpa using hb
      exact hlast

/-- The tokens of full blocks. -/
theorem length_flatten_of_full (h : ∀ b ∈ init, b.length = blockSize) :
    init.flatten.length = init.length * blockSize := by
  induction init with
  | nil => simp
  | cons b init ih =>
    rw [List.forall_mem_cons] at h
    rw [List.flatten_cons, List.length_append, ih h.2, h.1, List.length_cons, Nat.succ_mul,
      Nat.add_comm]

/-- Filled blocks are packed. -/
theorem Filled.packed (hblock : 0 < blockSize) (h : Filled blockSize blocks tokens) :
    Packed blockSize tokens.length blocks := by
  rcases List.eq_nil_or_concat blocks with rfl | ⟨init, last, rfl⟩
  · have hnil : tokens = [] := h.flatten_eq.symm
    rw [hnil]
    exact packed_nil hblock
  · rw [List.concat_eq_append] at h ⊢
    obtain ⟨htokens, hfull, hlast⟩ := filled_concat_iff.mp h
    refine (packed_concat_iff hblock).mpr ⟨?_, hlast⟩
    rw [← htokens, List.length_append, length_flatten_of_full hfull]

/-- The block that is open has an empty slot, and the blocks before it are full. -/
theorem Filled.exists_open (hblock : 0 < blockSize) (h : Filled blockSize blocks tokens) :
    ∃ init last, openLastBlock blockSize blocks = init ++ [last] ∧ init.flatten ++ last = tokens ∧
      (∀ b ∈ init, b.length = blockSize) ∧ last.length < blockSize := by
  unfold openLastBlock
  rcases List.eq_nil_or_concat blocks with rfl | ⟨init, last, rfl⟩
  · exact ⟨[], [], rfl, h.flatten_eq, by simp, hblock⟩
  · rw [List.concat_eq_append] at h ⊢
    obtain ⟨htokens, hfull, -, hle⟩ := filled_concat_iff.mp h
    simp only [List.getLast?_append, List.getLast?_singleton, Option.some_or]
    split_ifs with hlast
    · refine ⟨init ++ [last], [], rfl, ?_, ?_, hblock⟩
      · simpa using htokens
      · intro b hb
        rcases List.mem_append.mp hb with hb | hb
        · exact hfull b hb
        · rw [List.mem_singleton.mp hb, hlast]
    · exact ⟨init, last, rfl, htokens, hfull, by omega⟩

/-- Filling the open block. -/
theorem filled_of_open (htokens : init.flatten ++ last = tokens)
    (hfull : ∀ b ∈ init, b.length = blockSize) (hlt : last.length < blockSize)
    (hne : tokenIds ≠ []) :
    Filled blockSize (init ++ [last ++ tokenIds.take (blockSize - last.length)])
      (tokens ++ tokenIds.take (blockSize - last.length)) := by
  have hpos : 0 < tokenIds.length := List.length_pos_iff.mpr hne
  refine filled_concat_iff.mpr ⟨?_, hfull, ?_⟩
  · rw [← List.append_assoc, htokens]
  · rw [List.length_append, List.length_take]
    omega

/-- **Run lemma**: the loop keeps the blocks filled and stores all tokens behind the old ones. -/
theorem Filled.loop (hblock : 0 < blockSize) {fuel : Nat} (hfuel : tokenIds.length ≤ fuel)
    (h : Filled blockSize blocks tokens) :
    Filled blockSize (appendTokensLoop blockSize fuel blocks tokenIds) (tokens ++ tokenIds) := by
  induction fuel generalizing blocks tokens tokenIds with
  | zero =>
    rw [List.length_eq_zero_iff.mp (Nat.le_zero.mp hfuel), List.append_nil]
    exact h
  | succ fuel ih =>
    by_cases hne : tokenIds = []
    · rw [hne, List.append_nil]
      exact h
    · obtain ⟨init, last, hopen, htokens, hfull, hlt⟩ := h.exists_open hblock
      have hpos : 0 < tokenIds.length := List.length_pos_iff.mpr hne
      have hfewer : (tokenIds.drop (blockSize - last.length)).length ≤ fuel := by
        rw [List.length_drop]
        omega
      have hrest := ih hfewer (filled_of_open htokens hfull hlt hne)
      rw [List.append_assoc, List.take_append_drop] at hrest
      rwa [appendTokensLoop_succ hne hopen]

@[simp] theorem appendTokensLoop_nil (blockSize fuel : Nat) (blocks : List (List TokenId)) :
    appendTokensLoop blockSize fuel blocks [] = blocks := by
  cases fuel <;> rfl

/-- With enough turns the bound of the loop makes no difference. -/
theorem Filled.appendTokensLoop_congr (hblock : 0 < blockSize) {fuel fuel' : Nat}
    (hfuel : tokenIds.length ≤ fuel) (hfuel' : tokenIds.length ≤ fuel')
    (h : Filled blockSize blocks tokens) :
    appendTokensLoop blockSize fuel blocks tokenIds =
      appendTokensLoop blockSize fuel' blocks tokenIds := by
  by_cases hne : tokenIds = []
  · rw [hne, appendTokensLoop_nil, appendTokensLoop_nil]
  induction fuel generalizing fuel' blocks tokens tokenIds with
  | zero => exact absurd (List.length_eq_zero_iff.mp (Nat.le_zero.mp hfuel)) hne
  | succ fuel ih =>
    have hpos : 0 < tokenIds.length := List.length_pos_iff.mpr hne
    obtain ⟨fuel', rfl⟩ : ∃ k, fuel' = k + 1 := ⟨fuel' - 1, by omega⟩
    obtain ⟨init, last, hopen, htokens, hfull, hlt⟩ := h.exists_open hblock
    rw [appendTokensLoop_succ hne hopen, appendTokensLoop_succ hne hopen]
    have hrest : (tokenIds.drop (blockSize - last.length)).length =
        tokenIds.length - (blockSize - last.length) := List.length_drop
    by_cases hdone : tokenIds.drop (blockSize - last.length) = []
    · rw [hdone, appendTokensLoop_nil, appendTokensLoop_nil]
    · exact ih (by omega) (by omega) (filled_of_open htokens hfull hlt hne) hdone

/-- One turn of the loop, whatever its bound. -/
theorem Filled.appendTokensToBlocks_turn (hblock : 0 < blockSize)
    (h : Filled blockSize blocks tokens) (hne : tokenIds ≠ [])
    (hopen : openLastBlock blockSize blocks = init ++ [last]) :
    appendTokensToBlocks blockSize blocks tokenIds =
      appendTokensToBlocks blockSize (init ++ [last ++ tokenIds.take (blockSize - last.length)])
        (tokenIds.drop (blockSize - last.length)) := by
  have hpos : 0 < tokenIds.length := List.length_pos_iff.mpr hne
  obtain ⟨init', last', hopen', htokens, hfull, hlt⟩ := h.exists_open hblock
  obtain ⟨rfl, hlast⟩ := List.append_inj' (hopen.symm.trans hopen') rfl
  obtain rfl := List.singleton_inj.mp hlast
  have hrest : (tokenIds.drop (blockSize - last.length)).length =
      tokenIds.length - (blockSize - last.length) := List.length_drop
  unfold appendTokensToBlocks
  obtain ⟨n, hn⟩ : ∃ n, tokenIds.length = n + 1 := ⟨tokenIds.length - 1, by omega⟩
  rw [hn, appendTokensLoop_succ hne hopen]
  exact (filled_of_open htokens hfull hlt hne).appendTokensLoop_congr hblock (by omega) le_rfl

/-! ## Block objects -/

/-- `LogicalTokenBlock`.  The slots behind the first `num_tokens` hold `_BLANK_TOKEN_ID`, which no
    method reads. -/
structure LogicalTokenBlock where
  blockNumber : Nat
  blockSize : Nat
  tokenIds : List TokenId
  numTokens : Nat
  length_eq : tokenIds.length = blockSize
  numTokens_le : numTokens ≤ blockSize

namespace LogicalTokenBlock

/-- `LogicalTokenBlock(block_number, block_size)`. -/
def new (blankTokenId : TokenId) (blockNumber blockSize : Nat) : LogicalTokenBlock where
  blockNumber := blockNumber
  blockSize := blockSize
  tokenIds := List.replicate blockSize blankTokenId
  numTokens := 0
  length_eq := List.length_replicate
  numTokens_le := Nat.zero_le _

variable (b : LogicalTokenBlock)

/-- `get_num_empty_slots`. -/
def getNumEmptySlots : Nat := b.blockSize - b.numTokens

/-- `is_full`. -/
def isFull : Bool := b.numTokens == b.blockSize

/-- `get_token_ids`. -/
def getTokenIds : List TokenId := b.tokenIds.take b.numTokens

/-- The assertion of `append_tokens`. -/
def overfull : PyError := .assertionError "len(token_ids) <= self.get_num_empty_slots()"

/-- `append_tokens`: assign to a slice of the slots. -/
def appendTokens (tokenIds : List TokenId) : Except PyError LogicalTokenBlock :=
  if h : tokenIds.length ≤ b.getNumEmptySlots then
    .ok {
      blockNumber := b.blockNumber
      blockSize := b.blockSize
      tokenIds := b.tokenIds.take b.numTokens ++ tokenIds ++
        b.tokenIds.drop (b.numTokens + tokenIds.length)
      numTokens := b.numTokens + tokenIds.length
      length_eq := by
        have hlength := b.length_eq
        have hused := b.numTokens_le
        simp only [getNumEmptySlots] at h
        simp only [List.length_append, List.length_take, List.length_drop]
        omega
      numTokens_le := by
        have hused := b.numTokens_le
        simp only [getNumEmptySlots] at h
        omega }
  else .error overfull

@[simp] theorem new_blockSize (blankTokenId : TokenId) (blockNumber blockSize : Nat) :
    (new blankTokenId blockNumber blockSize).blockSize = blockSize := rfl

@[simp] theorem new_getTokenIds (blankTokenId : TokenId) (blockNumber blockSize : Nat) :
    (new blankTokenId blockNumber blockSize).getTokenIds = [] := rfl

variable {b}

theorem length_getTokenIds : b.getTokenIds.length = b.numTokens := by
  have hlength := b.length_eq
  have hused := b.numTokens_le
  rw [getTokenIds, List.length_take]
  omega

theorem isFull_iff : b.isFull = true ↔ b.getTokenIds.length = b.blockSize := by
  rw [isFull, beq_iff_eq, length_getTokenIds]

theorem getNumEmptySlots_eq : b.getNumEmptySlots = b.blockSize - b.getTokenIds.length := by
  rw [getNumEmptySlots, length_getTokenIds]

/-- What fits is stored behind the tokens that are there. -/
theorem appendTokens_eq_ok {tokenIds : List TokenId}
    (h : tokenIds.length ≤ b.getNumEmptySlots) :
    ∃ b', b.appendTokens tokenIds = .ok b' ∧ b'.blockSize = b.blockSize ∧
      b'.getTokenIds = b.getTokenIds ++ tokenIds := by
  refine ⟨_, dif_pos h, rfl, ?_⟩
  have hlength : (b.tokenIds.take b.numTokens ++ tokenIds).length =
      b.numTokens + tokenIds.length := by
    rw [List.length_append]
    exact congrArg (· + tokenIds.length) length_getTokenIds
  exact List.take_left' hlength

end LogicalTokenBlock

/-! ## The loop -/

/-- What the objects stand for. -/
def contents (blocks : List LogicalTokenBlock) : List (List TokenId) :=
  blocks.map LogicalTokenBlock.getTokenIds

/-- `_append_logical_block`. -/
def appendLogicalBlock (blankTokenId : TokenId) (blockSize : Nat)
    (blocks : List LogicalTokenBlock) : List LogicalTokenBlock :=
  blocks ++ [.new blankTokenId blocks.length blockSize]

/-- `self.logical_token_blocks[-1]`. -/
def lastBlock (blocks : List LogicalTokenBlock) : Except PyError LogicalTokenBlock :=
  match blocks.getLast? with
  | some b => .ok b
  | none => .error .indexError

/-- The first half of a turn of `_append_tokens_to_blocks`: a block is opened if there is none or
    the last one is full. -/
def openBlock (blankTokenId : TokenId) (blockSize : Nat) (blocks : List LogicalTokenBlock) :
    Except PyError (List LogicalTokenBlock) := do
  let blocks := if blocks.isEmpty then appendLogicalBlock blankTokenId blockSize blocks else blocks
  let last ← lastBlock blocks
  pure (if last.isFull then appendLogicalBlock blankTokenId blockSize blocks else blocks)

/-- One turn of the loop of `_append_tokens_to_blocks`, with the cursor as part of its state.  The
    cursor moves by the empty slots, also beyond the end of the tokens. -/
def appendTurn (blankTokenId : TokenId) (blockSize : Nat) (tokenIds : List TokenId)
    (st : List LogicalTokenBlock × Nat) :
    Except PyError (Option (List LogicalTokenBlock × Nat)) :=
  if st.2 < tokenIds.length then do
    let blocks ← openBlock blankTokenId blockSize st.1
    let last ← lastBlock blocks
    let numEmptySlots := last.getNumEmptySlots
    let last' ← last.appendTokens ((tokenIds.drop st.2).take numEmptySlots)
    pure (some (blocks.dropLast ++ [last'], st.2 + numEmptySlots))
  else .ok none

/-- The loop, with a bound on its turns: `none` if it is still running. -/
def appendLoop (blankTokenId : TokenId) (blockSize fuel : Nat) (tokenIds : List TokenId)
    (blocks : List LogicalTokenBlock) : Except PyError (Option (List LogicalTokenBlock)) := do
  let final ← runLoop (appendTurn blankTokenId blockSize tokenIds) fuel (blocks, 0)
  pure (final.map Prod.fst)

section Turn

variable (blankTokenId : TokenId) {objects : List LogicalTokenBlock} {cursor : Nat}

@[simp] theorem contents_append (blocks blocks' : List LogicalTokenBlock) :
    contents (blocks ++ blocks') = contents blocks ++ contents blocks' := List.map_append

@[simp] theorem contents_singleton (b : LogicalTokenBlock) : contents [b] = [b.getTokenIds] := rfl

@[simp] theorem lastBlock_concat (blocks : List LogicalTokenBlock) (b : LogicalTokenBlock) :
    lastBlock (blocks ++ [b]) = .ok b := by
  simp [lastBlock]

/-- Opening a block among the objects is opening it among the lists. -/
theorem openBlock_eq_ok (hblock : 0 < blockSize)
    (hsize : ∀ b ∈ objects, b.blockSize = blockSize) :
    ∃ (front : List LogicalTokenBlock) (b : LogicalTokenBlock),
      openBlock blankTokenId blockSize objects = .ok (front ++ [b]) ∧
      openLastBlock blockSize (contents objects) = contents front ++ [b.getTokenIds] ∧
      ∀ x ∈ front ++ [b], x.blockSize = blockSize := by
  rcases List.eq_nil_or_concat objects with rfl | ⟨front, b, rfl⟩
  · -- the first block
    refine ⟨[], .new blankTokenId 0 blockSize, ?_, rfl, by simp⟩
    have hnew : (LogicalTokenBlock.new blankTokenId 0 blockSize).isFull = false := by
      simp [LogicalTokenBlock.isFull, LogicalTokenBlock.new, hblock.ne]
    simp [openBlock, appendLogicalBlock, lastBlock, hnew, Bind.bind, Except.bind, Pure.pure,
      Except.pure]
  · rw [List.concat_eq_append] at hsize ⊢
    have hb : b.blockSize = blockSize := hsize b (by simp)
    have hrun : openBlock blankTokenId blockSize (front ++ [b]) =
        .ok (if b.isFull then appendLogicalBlock blankTokenId blockSize (front ++ [b])
          else front ++ [b]) := by
      simp [openBlock, Bind.bind, Except.bind, Pure.pure, Except.pure]
    have hlist : openLastBlock blockSize (contents (front ++ [b])) =
        if b.isFull then contents (front ++ [b]) ++ [[]] else contents (front ++ [b]) := by
      simp [openLastBlock, LogicalTokenBlock.isFull_iff, hb]
    by_cases hfull : b.isFull = true
    · rw [if_pos hfull] at hrun hlist
      refine ⟨front ++ [b], .new blankTokenId _ blockSize, hrun, hlist, ?_⟩
      intro x hx
      rcases List.mem_append.mp hx with hx | hx
      · exact hsize x hx
      · rw [List.mem_singleton.mp hx, LogicalTokenBlock.new_blockSize]
    · rw [if_neg hfull] at hrun hlist
      exact ⟨front, b, hrun, by simpa using hlist, hsize⟩

/-- **A turn over the objects is a turn over the lists**: the tokens fit the block that is open. -/
theorem appendTurn_eq_ok (hblock : 0 < blockSize)
    (hsize : ∀ b ∈ objects, b.blockSize = blockSize) (hcursor : cursor < tokenIds.length) :
    ∃ objects' init last,
      appendTurn blankTokenId blockSize tokenIds (objects, cursor) =
        .ok (some (objects', cursor + (blockSize - last.length))) ∧
      openLastBlock blockSize (contents objects) = init ++ [last] ∧
      contents objects' =
        init ++ [last ++ (tokenIds.drop cursor).take (blockSize - last.length)] ∧
      ∀ b ∈ objects', b.blockSize = blockSize := by
  obtain ⟨front, b, hopen, hlist, hsizes⟩ := openBlock_eq_ok blankTokenId hblock hsize
  have hb : b.blockSize = blockSize := hsizes b (by simp)
  have hslots : b.getNumEmptySlots = blockSize - b.getTokenIds.length := by
    rw [LogicalTokenBlock.getNumEmptySlots_eq, hb]
  have hfit : ((tokenIds.drop cursor).take b.getNumEmptySlots).length ≤ b.getNumEmptySlots :=
    List.length_take_le _ _
  obtain ⟨b', happend, hsize', htokens⟩ := LogicalTokenBlock.appendTokens_eq_ok hfit
  refine ⟨front ++ [b'], contents front, b.getTokenIds, ?_, hlist, ?_, ?_⟩
  · rw [appendTurn, if_pos hcursor, hopen]
    show (lastBlock (front ++ [b]) >>= _) = _
    rw [lastBlock_concat]
    show (b.appendTokens _ >>= _) = _
    rw [happend, ← hslots, List.dropLast_concat]
    rfl
  · rw [contents_append, contents_singleton, htokens, hslots]
  · intro x hx
    rcases List.mem_append.mp hx with hx | hx
    · exact hsizes x (List.mem_append_left _ hx)
    · rw [List.mem_singleton.mp hx, hsize', hb]

/-- Where the loop stands: what is still to be done over the lists leads to `goal`. -/
structure AppendInv (blockSize : Nat) (tokenIds : List TokenId) (goal : List (List TokenId))
    (st : List LogicalTokenBlock × Nat) : Prop where
  size : ∀ b ∈ st.1, b.blockSize = blockSize
  filled : ∃ stored, Filled blockSize (contents st.1) stored
  rest : appendTokensToBlocks blockSize (contents st.1) (tokenIds.drop st.2) = goal

/-- **Step lemma** of the loop: it is left, or the cursor moves on. -/
theorem AppendInv.turn (hblock : 0 < blockSize) {goal : List (List TokenId)}
    {st : List LogicalTokenBlock × Nat} (h : AppendInv blockSize tokenIds goal st) :
    appendTurn blankTokenId blockSize tokenIds st = .ok none ∨
      ∃ st', appendTurn blankTokenId blockSize tokenIds st = .ok (some st') ∧
        AppendInv blockSize tokenIds goal st' ∧
        tokenIds.length - st'.2 < tokenIds.length - st.2 := by
  obtain ⟨objects, cursor⟩ := st
  by_cases hcursor : cursor < tokenIds.length
  · right
    obtain ⟨objects', init, last, hturn, hopen, hcontents, hsize⟩ :=
      appendTurn_eq_ok blankTokenId hblock h.size hcursor
    have hne : tokenIds.drop cursor ≠ [] := by simpa using hcursor
    obtain ⟨stored, hstored⟩ := h.filled
    -- the block that is open among the lists is the same one
    obtain ⟨init', last', hopen', htokens, hfull, hlt⟩ := hstored.exists_open hblock
    obtain ⟨rfl, hlast⟩ := List.append_inj' (hopen.symm.trans hopen') rfl
    obtain rfl := List.singleton_inj.mp hlast
    refine ⟨_, hturn, ⟨hsize, ?_, ?_⟩, ?_⟩
    · dsimp only
      rw [hcontents]
      exact ⟨_, filled_of_open htokens hfull hlt hne⟩
    · dsimp only
      rw [hcontents, ← List.drop_drop, ← hstored.appendTokensToBlocks_turn hblock hne hopen]
      exact h.rest
    · dsimp only
      omega
  · left
    exact if_neg hcursor

/-- A loop that is left has stored all tokens. -/
theorem AppendInv.contents_eq (hblock : 0 < blockSize) {goal : List (List TokenId)}
    {st : List LogicalTokenBlock × Nat} (h : AppendInv blockSize tokenIds goal st)
    (hleave : appendTurn blankTokenId blockSize tokenIds st = .ok none) :
    contents st.1 = goal := by
  have hdone : tokenIds.drop st.2 = [] := by
    by_contra hne
    have hcursor : st.2 < tokenIds.length := by simpa using hne
    obtain ⟨_, _, _, hturn, -⟩ := appendTurn_eq_ok blankTokenId hblock h.size hcursor
    rw [hturn] at hleave
    cases hleave
  have hrest := h.rest
  rw [hdone] at hrest
  exact hrest

/-- The result of the loop does not depend on the bound. -/
theorem appendLoop_mono {objects' : List LogicalTokenBlock} {fuel fuel' : Nat}
    (hle : fuel ≤ fuel')
    (h : appendLoop blankTokenId blockSize fuel tokenIds objects = .ok (some objects')) :
    appendLoop blankTokenId blockSize fuel' tokenIds objects = .ok (some objects') := by
  obtain ⟨final, hrun, hfinal⟩ := seq_eq_ok.mp h
  cases final with
  | none => cases hfinal
  | some st => exact seq_eq_ok.mpr ⟨some st, runLoop_mono hle hrun, hfinal⟩

/-- **The loop over the objects ends** after at most as many turns as there are tokens, no block is
    overfilled, and the objects hold what the lists hold. -/
theorem appendLoop_eq_ok (hblock : 0 < blockSize)
    (hsize : ∀ b ∈ objects, b.blockSize = blockSize)
    (hfilled : Filled blockSize (contents objects) tokens) {fuel : Nat}
    (hfuel : tokenIds.length < fuel) :
    ∃ objects', appendLoop blankTokenId blockSize fuel tokenIds objects = .ok (some objects') ∧
      contents objects' = appendTokensToBlocks blockSize (contents objects) tokenIds ∧
      ∀ b ∈ objects', b.blockSize = blockSize := by
  have hstart : AppendInv blockSize tokenIds
      (appendTokensToBlocks blockSize (contents objects) tokenIds) (objects, 0) :=
    ⟨hsize, ⟨tokens, hfilled⟩, rfl⟩
  obtain ⟨st, hrun, hinv, hleave⟩ := runLoop_total _ (fun st => tokenIds.length - st.2)
    (fun _ h => h.turn blankTokenId hblock) hfuel hstart
  refine ⟨st.1, ?_, hinv.contents_eq blankTokenId hblock hleave, hinv.size⟩
  rw [appendLoop, hrun]
  rfl

end Turn

end VAttention.Core
