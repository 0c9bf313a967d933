import VAttention.Core.Sequence

/-!
# Building the model input

Model of `ModelRunner._prepare_inputs`.  The input tensors have one row for each token; the
lists `input_tokens` and `input_positions` grow together and are one list of rows here.
-/

namespace VAttention.Executor

open VAttention.Core VAttention.Lib

/-- A token id and its position in the sequence. -/
abbrev InputRow := TokenId × Nat

/-- The rows of one entry of the batch: the next chunk of a prompt, or the last token. -/
def inputRows (m : SequenceMetadata) : Except PyError (List InputRow) :=
  if m.isPrompt then do
    let tokens ← m.seq.getNextPromptChunkTokenIds m.promptChunkLen.toNat
    pure (tokens.zip (List.range' m.seq.promptTokensProcessed tokens.length))
  else do
    let token ← m.seq.getLastTokenId
    pure [(token, m.seq.getLen - 1)]

section TwoPass

variable {α ρ : Type} (isPrompt : α → Bool) (rowsOf : α → Except PyError (List ρ))

/-- A pass over the batch that adds the rows of the entries it selects. -/
def addRows (select : α → Bool) (l : List α) (rows : List ρ) : Except PyError (List ρ) :=
  l.foldlM (fun rows a => if select a then do
    let new ← rowsOf a
    pure (rows ++ new)
  else pure rows) rows

/-- The two passes of `_prepare_inputs`: the prompts first, then the decodes. -/
def twoPass (l : List α) : Except PyError (List ρ) := do
  let rows ← addRows rowsOf isPrompt l []
  addRows rowsOf (fun a => !isPrompt a) l rows

end TwoPass

/-- `pad_to_alignment`. -/
def padToAlignment {ρ : Type} (padding : ρ) (multipleOf : Nat) (rows : List ρ) : List ρ :=
  rows ++ List.replicate ((multipleOf - rows.length % multipleOf) % multipleOf) padding

/-- `ModelRunner._prepare_inputs`; MLA models on the vAttention backend are not padded. -/
def prepareInputs (padded : Bool) (l : List SequenceMetadata) : Except PyError (List InputRow) := do
  let rows ← twoPass SequenceMetadata.isPrompt inputRows l
  pure (if padded then padToAlignment (0, 0) 8 rows else rows)

/-! ## Inputs exist for every entry -/

theorem rowsOf_ok_of_addRows {α ρ : Type} {rowsOf : α → Except PyError (List ρ)}
    {select : α → Bool} {l : List α} {rows rows' : List ρ}
    (h : addRows rowsOf select l rows = .ok rows') :
    ∀ a ∈ l, select a = true → ∃ new, rowsOf a = .ok new := by
  induction l generalizing rows with
  | nil => simp
  | cons a l ih =>
    obtain ⟨rows₁, hfst, hrest⟩ := seq_eq_ok.mp h
    rw [List.forall_mem_cons]
    refine ⟨fun hselect => ?_, ih hrest⟩
    -- the entry has been visited
    simp only [hselect, if_true] at hfst
    obtain ⟨new, hnew, -⟩ := seq_eq_ok.mp hfst
    exact ⟨new, hnew⟩

/-- Every entry of a batch is visited by one of the two passes. -/
theorem inputRows_ok_of_prepareInputs {padded : Bool} {l : List SequenceMetadata}
    {rows : List InputRow} (h : prepareInputs padded l = .ok rows) :
    ∀ m ∈ l, ∃ new, inputRows m = .ok new := by
  obtain ⟨all, htwo, -⟩ := seq_eq_ok.mp h
  obtain ⟨prompts, hprompts, hdecodes⟩ := seq_eq_ok.mp htwo
  intro m hm
  by_cases hprompt : m.isPrompt = true
  · exact rowsOf_ok_of_addRows hprompts m hm hprompt
  · exact rowsOf_ok_of_addRows hdecodes m hm (by simp [hprompt])

end VAttention.Executor
