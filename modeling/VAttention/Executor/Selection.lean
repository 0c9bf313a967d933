import Mathlib.Data.List.Basic
import VAttention.Executor.Inputs
import VAttention.Lib.Lists

/-!
# Selecting the rows to sample from

Model of `_prune_hidden_states`.  The rows of the model input are written in two passes over
the batch, the prompts first; the sampler computes the indices of the last rows in one pass.
To compare the two, the rows are marked: the last row of an entry carries the index of the
entry, and every other row, padding included, carries nothing.
-/

namespace VAttention.Executor

open VAttention.Core VAttention.Lib

/-! ## The sampler's side -/

/-- The loop of `_prune_hidden_states`. -/
def lastTokenIndices : Nat → List SequenceMetadata → List Nat
  | _, [] => []
  | tokenIdx, m :: l =>
    if m.isPrompt then
      (tokenIdx + m.promptChunkLen.toNat - 1) ::
        lastTokenIndices (tokenIdx + m.promptChunkLen.toNat) l
    else tokenIdx :: lastTokenIndices (tokenIdx + 1) l

/-- `_prune_hidden_states`; `index_select` raises on an index out of range. -/
def pruneHiddenStates {ρ : Type} (hiddenStates : List ρ) (l : List SequenceMetadata) :
    Except PyError (List ρ) :=
  (lastTokenIndices 0 l).mapM fun i =>
    match hiddenStates[i]? with
    | some row => .ok row
    | none => .error .indexError

/-! ## Marked rows -/

/-- The marks of `n` rows of entry `i`: only the last one is marked. -/
def marksOf (i n : Nat) : List (Option Nat) := List.replicate (n - 1) none ++ [some i]

/-- Mark the last row of entry `i`. -/
def markLast {ρ : Type} (i : Nat) (rows : List ρ) : List (Option Nat × ρ) :=
  (marksOf i rows.length).zip rows

/-- `_prepare_inputs` with marked rows. -/
def prepareMarkedInputs (padded : Bool) (l : List SequenceMetadata) :
    Except PyError (List (Option Nat × InputRow)) := do
  let rows ← twoPass (fun p => p.1.isPrompt) (fun p => (inputRows p.1).map (markLast p.2)) l.zipIdx
  pure (if padded then padToAlignment (none, 0, 0) 8 rows else rows)

/-- The marks of the rows that the sampler selects. -/
def selectedMarks (padded : Bool) (l : List SequenceMetadata) :
    Except PyError (List (Option Nat)) := do
  let rows ← prepareMarkedInputs padded l
  pruneHiddenStates (rows.map Prod.fst) l

theorem length_marksOf {i n : Nat} (hn : 0 < n) : (marksOf i n).length = n := by
  simp only [marksOf, List.length_append, List.length_replicate, List.length_singleton]
  omega

theorem mem_marksOf {i j n : Nat} (h : some j ∈ marksOf i n) : j = i := by
  simpa [marksOf] using h

theorem markLast_snd {ρ : Type} (i : Nat) (rows : List ρ) :
    (markLast i rows).map Prod.snd = rows := by
  refine List.map_snd_zip ?_
  simp only [marksOf, List.length_append, List.length_replicate, List.length_singleton]
  omega

theorem markLast_fst {ρ : Type} (i : Nat) {rows : List ρ} (hrows : 0 < rows.length) :
    (markLast i rows).map Prod.fst = marksOf i rows.length :=
  List.map_fst_zip (Nat.le_of_eq (length_marksOf hrows))

/-! ### Marking changes nothing else -/

section TwoPass

variable {α α' ρ τ : Type} {isPrompt : α → Bool} {rowsOf : α → Except PyError (List ρ)}

/-- A pass over a list whose rows are seen through `f`. -/
theorem addRows_map (select : α → Bool) {rowsOf' : α' → Except PyError (List τ)} {g : α' → α}
    {f : τ → ρ} (hrows : ∀ a, rowsOf (g a) = (rowsOf' a).map (List.map f)) (l : List α')
    (rows : List τ) :
    addRows rowsOf select (l.map g) (rows.map f) =
      (addRows rowsOf' (fun a => select (g a)) l rows).map (List.map f) := by
  induction l generalizing rows with
  | nil => rfl
  | cons a l ih =>
    unfold addRows at ih ⊢
    rw [List.map_cons, List.foldlM_cons, List.foldlM_cons]
    dsimp only
    split_ifs with hselect
    · rw [hrows]
      cases rowsOf' a with
      | error err => rfl
      | ok new =>
        have hnext := ih (rows ++ new)
        rw [List.map_append] at hnext
        exact hnext
    · exact ih rows

theorem twoPass_map (isPrompt : α → Bool) {rowsOf' : α' → Except PyError (List τ)} {g : α' → α}
    {f : τ → ρ} (hrows : ∀ a, rowsOf (g a) = (rowsOf' a).map (List.map f)) (l : List α') :
    twoPass isPrompt rowsOf (l.map g) =
      (twoPass (fun a => isPrompt (g a)) rowsOf' l).map (List.map f) := by
  have hfirst := addRows_map isPrompt hrows l []
  unfold twoPass
  rw [List.map_nil] at hfirst
  rw [hfirst]
  cases addRows rowsOf' (fun a => isPrompt (g a)) l [] with
  | error err => rfl
  | ok rows => exact addRows_map (fun a => !isPrompt a) hrows l rows

/-- What a pass has added, seen through `g`. -/
theorem addRows_eq_ok {select : α → Bool} {g : ρ → τ} {f : α → List τ}
    (hrows : ∀ a new, rowsOf a = .ok new → new.map g = f a) {l : List α} {rows rows' : List ρ}
    (h : addRows rowsOf select l rows = .ok rows') :
    rows'.map g = rows.map g ++ (l.filter select).flatMap f := by
  induction l generalizing rows with
  | nil =>
    cases h
    simp
  | cons a l ih =>
    obtain ⟨rows₁, hfst, hrest⟩ := seq_eq_ok.mp h
    dsimp only at hfst
    split_ifs at hfst with hselect
    · obtain ⟨new, hnew, hpure⟩ := seq_eq_ok.mp hfst
      cases hpure
      rw [ih hrest, List.map_append, hrows a new hnew, List.filter_cons_of_pos hselect,
        List.flatMap_cons, List.append_assoc]
    · cases hfst
      rw [ih hrest, List.filter_cons_of_neg hselect]

theorem twoPass_eq_ok {g : ρ → τ} {f : α → List τ}
    (hrows : ∀ a new, rowsOf a = .ok new → new.map g = f a) {l : List α} {rows : List ρ}
    (h : twoPass isPrompt rowsOf l = .ok rows) :
    rows.map g = (l.filter isPrompt).flatMap f ++ (l.filter fun a => !isPrompt a).flatMap f := by
  obtain ⟨rows₁, hfst, hsnd⟩ := seq_eq_ok.mp h
  rw [addRows_eq_ok hrows hsnd, addRows_eq_ok hrows hfst, List.map_nil, List.nil_append]

end TwoPass

/-- Without its marks, the marked input is the input. -/
theorem prepareMarkedInputs_snd (padded : Bool) (l : List SequenceMetadata) :
    (prepareMarkedInputs padded l).map (List.map Prod.snd) = prepareInputs padded l := by
  have hmarks (p : SequenceMetadata × Nat) : inputRows p.1 =
      ((inputRows p.1).map (markLast p.2)).map (List.map Prod.snd) := by
    cases inputRows p.1 with
    | error err => rfl
    | ok rows => exact congrArg Except.ok (markLast_snd p.2 rows).symm
  have htwo := twoPass_map SequenceMetadata.isPrompt hmarks l.zipIdx
  rw [List.zipIdx_map_fst] at htwo
  unfold prepareInputs prepareMarkedInputs
  rw [htwo]
  cases twoPass (fun p : SequenceMetadata × Nat => p.1.isPrompt)
      (fun p => (inputRows p.1).map (markLast p.2)) l.zipIdx with
  | error err => rfl
  | ok rows =>
    -- padding adds unmarked rows, which are padding without their marks
    cases padded with
    | false => rfl
    | true => simp [padToAlignment, Except.map, Bind.bind, Except.bind, pure, Except.pure]

/-! ## The two orders -/

/-- The number of rows of an entry. -/
def numRows (m : SequenceMetadata) : Nat := if m.isPrompt then m.promptChunkLen.toNat else 1

theorem numRows_pos (m : SequenceMetadata) : 0 < numRows m := by
  unfold numRows
  split_ifs with hprompt
  · simp only [SequenceMetadata.isPrompt, decide_eq_true_eq] at hprompt
    omega
  · exact Nat.one_pos

theorem length_inputRows {m : SequenceMetadata} {rows : List InputRow}
    (h : inputRows m = .ok rows) : rows.length = numRows m := by
  unfold inputRows at h
  unfold numRows
  split_ifs at h ⊢
  · obtain ⟨tokens, htokens, hrows⟩ := seq_eq_ok.mp h
    cases hrows
    obtain ⟨⟨⟩, hend, hchunk⟩ := seq_eq_ok.mp htokens
    cases hchunk
    simp only [assertThat_eq_ok, decide_eq_true_eq] at hend
    simp only [List.length_zip, List.length_range', List.length_take, List.length_drop]
    omega
  · obtain ⟨token, -, hrows⟩ := seq_eq_ok.mp h
    cases hrows
    rfl

/-- The marks of an entry of the batch. -/
def entryMarks (p : SequenceMetadata × Nat) : List (Option Nat) := marksOf p.2 (numRows p.1)

/-- The marks of the input: the prompts, the decodes, padding. -/
theorem prepareMarkedInputs_fst {padded : Bool} {l : List SequenceMetadata}
    {rows : List (Option Nat × InputRow)} (h : prepareMarkedInputs padded l = .ok rows) :
    ∃ n, rows.map Prod.fst =
      (l.zipIdx.filter fun p => p.1.isPrompt).flatMap entryMarks ++
        ((l.zipIdx.filter fun p => !p.1.isPrompt).flatMap entryMarks ++
          List.replicate n none) := by
  obtain ⟨rows', htwo, hpad⟩ := seq_eq_ok.mp h
  have hmarks := twoPass_eq_ok (g := Prod.fst) (f := entryMarks) (fun p new hnew => ?_) htwo
  · cases padded with
    | false =>
      cases hpad
      exact ⟨0, by simp [hmarks]⟩
    | true =>
      cases hpad
      exact ⟨(8 - rows'.length % 8) % 8, by simp [padToAlignment, hmarks]⟩
  · obtain ⟨rows, hrows, rfl⟩ := map_eq_ok.mp hnew
    have hlen := length_inputRows hrows
    rw [markLast_fst p.2 (hlen ▸ numRows_pos p.1), hlen]
    rfl

theorem lastTokenIndices_cons (t : Nat) (m : SequenceMetadata) (l : List SequenceMetadata) :
    lastTokenIndices t (m :: l) =
      (t + (numRows m - 1)) :: lastTokenIndices (t + numRows m) l := by
  have hn := numRows_pos m
  rw [lastTokenIndices]
  unfold numRows at hn ⊢
  split_ifs at hn ⊢
  · rw [Nat.add_sub_assoc hn]
  · rfl

/-- The sampler looks for the last rows where they would be in one pass over the batch. -/
theorem lastTokenIndices_marks (l : List SequenceMetadata) (k : Nat)
    (before after : List (Option Nat)) :
    (lastTokenIndices before.length l).map
        (fun i => (before ++ ((l.zipIdx k).flatMap entryMarks ++ after))[i]?) =
      (List.range' k l.length).map fun i => some (some i) := by
  -- over the batch: `before` holds the rows of the entries that are done
  induction l generalizing before k with
  | nil => rfl
  | cons m l ih =>
    have hn := numRows_pos m
    have hrest := ih (k + 1) (before ++ entryMarks (m, k))
    rw [List.length_append, show (entryMarks (m, k)).length = numRows m from length_marksOf hn,
      List.append_assoc] at hrest
    rw [lastTokenIndices_cons, List.zipIdx_cons, List.flatMap_cons, List.length_cons,
      List.range'_succ, List.map_cons, List.map_cons, List.append_assoc, hrest]
    -- the last row of this entry is behind `before`, and the marked one
    congr 1
    rw [List.getElem?_append_right (Nat.le_add_right _ _), Nat.add_sub_cancel_left,
      List.getElem?_append_left (by rw [entryMarks, length_marksOf hn]; omega)]
    simp [entryMarks, marksOf]

theorem le_of_mem_lastTokenIndices {l : List SequenceMetadata} {t i : Nat}
    (h : i ∈ lastTokenIndices t l) : t ≤ i := by
  induction l generalizing t with
  | nil => cases h
  | cons m l ih =>
    rw [lastTokenIndices_cons, List.mem_cons] at h
    rcases h with rfl | hrest
    · exact Nat.le_add_right _ _
    · exact Nat.le_trans (Nat.le_add_right _ _) (ih hrest)

theorem lastTokenIndices_increasing (l : List SequenceMetadata) (t : Nat) :
    (lastTokenIndices t l).Pairwise (· < ·) := by
  induction l generalizing t with
  | nil => exact List.Pairwise.nil
  | cons m l ih =>
    rw [lastTokenIndices_cons]
    refine List.Pairwise.cons (fun i hi => ?_) (ih _)
    have hn := numRows_pos m
    have hle := le_of_mem_lastTokenIndices hi
    omega

theorem length_lastTokenIndices (l : List SequenceMetadata) (t : Nat) :
    (lastTokenIndices t l).length = l.length := by
  induction l generalizing t with
  | nil => rfl
  | cons m l ih => rw [lastTokenIndices_cons, List.length_cons, List.length_cons, ih]

/-! ## When the orders agree -/

/-- No decode comes before a prompt chunk. -/
def PromptsFirst (l : List SequenceMetadata) : Prop :=
  l.Pairwise fun a b => b.isPrompt = true → a.isPrompt = true

/-- `index_select` in terms of a list of optional rows. -/
theorem pruneHiddenStates_eq_ok {ρ : Type} {hiddenStates out : List ρ}
    {l : List SequenceMetadata} :
    pruneHiddenStates hiddenStates l = .ok out ↔
      (lastTokenIndices 0 l).map (fun i => hiddenStates[i]?) = out.map some := by
  unfold pruneHiddenStates
  induction lastTokenIndices 0 l generalizing out with
  | nil =>
    cases out with
    | nil => simp [pure, Except.pure]
    | cons row out => simp [pure, Except.pure]
  | cons i is ih =>
    rw [List.mapM_cons, seq_eq_ok, List.map_cons]
    cases hrow : hiddenStates[i]? with
    | none => cases out <;> simp
    | some row =>
      constructor
      · rintro ⟨row', hok, hseq⟩
        cases hok
        obtain ⟨rest, hrest, hpure⟩ := seq_eq_ok.mp hseq
        cases hpure
        rw [ih.mp hrest, List.map_cons]
      · intro heq
        cases out with
        | nil => cases heq
        | cons row' out =>
          rw [List.map_cons, List.cons.injEq] at heq
          cases heq.1
          exact ⟨row, rfl, seq_eq_ok.mpr ⟨out, ih.mpr heq.2, rfl⟩⟩

/-- A list of marks in which every index finds its own entry is read off entry by entry. -/
theorem getElem?_of_selected {l : List SequenceMetadata} {marks : List (Option Nat)}
    (h : (lastTokenIndices 0 l).map (fun i => marks[i]?) =
      (List.range l.length).map fun i => some (some i)) {i : Nat} (hi : i < l.length) :
    ∃ k, (lastTokenIndices 0 l)[i]? = some k ∧ marks[k]? = some (some i) := by
  have hlen := length_lastTokenIndices l 0
  have hk : i < (lastTokenIndices 0 l).length := by rw [hlen]; exact hi
  refine ⟨(lastTokenIndices 0 l)[i], List.getElem?_eq_getElem hk, ?_⟩
  have hith := congrArg (fun x : List (Option (Option Nat)) => x[i]?) h
  simpa [hi, hk] using hith

theorem mem_entryMarks_filter {l : List SequenceMetadata} {p : SequenceMetadata → Bool} {j : Nat}
    (h : some j ∈ (l.zipIdx.filter fun a => p a.1).flatMap entryMarks) :
    ∃ m, l[j]? = some m ∧ p m = true := by
  obtain ⟨a, ha, hj⟩ := List.mem_flatMap.mp h
  obtain ⟨hmem, hp⟩ := List.mem_filter.mp ha
  obtain rfl := mem_marksOf hj
  exact ⟨a.1, List.mem_zipIdx_iff_getElem?.mp hmem, hp⟩

/-- If the prompts come first, both passes write the rows in the order of the batch. -/
theorem selected_of_promptsFirst {l : List SequenceMetadata} (h : PromptsFirst l) (n : Nat) :
    (lastTokenIndices 0 l).map (fun i =>
        ((l.zipIdx.filter fun p => p.1.isPrompt).flatMap entryMarks ++
          ((l.zipIdx.filter fun p => !p.1.isPrompt).flatMap entryMarks ++
            List.replicate n none))[i]?) =
      (List.range l.length).map fun i => some (some i) := by
  have hzip : l.zipIdx.Pairwise fun a b => b.1.isPrompt = true → a.1.isPrompt = true := by
    rw [← List.pairwise_map (f := Prod.fst)
      (R := fun a b : SequenceMetadata => b.isPrompt = true → a.isPrompt = true),
      List.zipIdx_map_fst]
    exact h
  -- the two passes together are one pass in the order of the batch
  have horder := filter_append_filter_not hzip
  rw [← List.append_assoc, ← List.flatMap_append, horder, List.range_eq_range']
  exact lastTokenIndices_marks l 0 [] (List.replicate n none)

/-- If every index finds its own entry, no decode comes before a prompt: the rows of prompts
    precede those of decodes, and the indices increase. -/
theorem promptsFirst_of_selected {l : List SequenceMetadata} {n : Nat}
    (h : (lastTokenIndices 0 l).map (fun i =>
        ((l.zipIdx.filter fun p => p.1.isPrompt).flatMap entryMarks ++
          ((l.zipIdx.filter fun p => !p.1.isPrompt).flatMap entryMarks ++
            List.replicate n none))[i]?) =
      (List.range l.length).map fun i => some (some i)) : PromptsFirst l := by
  rw [PromptsFirst, List.pairwise_iff_getElem]
  intro i j hi hj hij hprompt
  by_contra hdecode
  obtain ⟨ki, hki, hmarki⟩ := getElem?_of_selected h hi
  obtain ⟨kj, hkj, hmarkj⟩ := getElem?_of_selected h hj
  -- a decode `i` before a prompt `j`: the sampler looks for `i` first
  have hlt : ki < kj := by
    obtain ⟨hi', rfl⟩ := List.getElem?_eq_some_iff.mp hki
    obtain ⟨hj', rfl⟩ := List.getElem?_eq_some_iff.mp hkj
    exact List.pairwise_iff_getElem.mp (lastTokenIndices_increasing l 0) i j hi' hj' hij
  -- the row of the prompt is among the prompts' rows
  have hfirst : kj < ((l.zipIdx.filter fun p => p.1.isPrompt).flatMap entryMarks).length := by
    by_contra hge
    rw [List.getElem?_append_right (Nat.le_of_not_lt hge)] at hmarkj
    rcases List.mem_append.mp (List.mem_of_getElem? hmarkj) with hmem | hmem
    · obtain ⟨m, hm, hnot⟩ := mem_entryMarks_filter (p := fun m => !m.isPrompt) hmem
      rw [List.getElem?_eq_getElem hj] at hm
      cases hm
      simp [hprompt] at hnot
    · simp [List.mem_replicate] at hmem
  -- so the row found for the decode is one of them, too
  rw [List.getElem?_append_left (Nat.lt_trans hlt hfirst)] at hmarki
  obtain ⟨m, hm, hyes⟩ :=
    mem_entryMarks_filter (p := fun m => m.isPrompt) (List.mem_of_getElem? hmarki)
  rw [List.getElem?_eq_getElem hi] at hm
  cases hm
  exact hdecode hyes

end VAttention.Executor
