import Mathlib.Data.List.Nodup
import VAttention.Core.Sequence
import VAttention.Lib.Lists

/-!
# Sampling

Model of `_sample`.  The batch is split by sampling type, and the rows of each group are cut
out of the matrices from `category_start_idx` on, which the loop never advances.  Argmax and
the multinomial draw are functions of a row here, with rows of any type.
-/

namespace VAttention.Executor

open VAttention.Core VAttention.Lib

/-- The sampling type of an entry. -/
def samplingTypeOf (m : SequenceMetadata) : SamplingType := m.seq.samplingParams.samplingType

section

variable {π κ : Type} (greedySample : κ → TokenId) (randomSample : π → TokenId)
  (probs : List π) (logprobs : List κ)

/-- One turn of the loop over the sampling types. -/
def sampleCategory (categoryStartIdx : Nat) (l : List SequenceMetadata)
    (samplingType : SamplingType) : List SamplerOutput :=
  let seqIds := (l.filter fun m => samplingTypeOf m == samplingType).map fun m => m.seq.seqId
  let numTokens := seqIds.length
  if numTokens = 0 then []
  else
    let sampleResults :=
      match samplingType with
      | .greedy => ((logprobs.drop categoryStartIdx).take numTokens).map greedySample
      | .random => ((probs.drop categoryStartIdx).take numTokens).map randomSample
    List.zipWith SamplerOutput.mk seqIds sampleResults

/-- `_sample`. -/
def sample (l : List SequenceMetadata) : List SamplerOutput :=
  let categoryStartIdx := 0
  [SamplingType.greedy, SamplingType.random].flatMap
    (sampleCategory greedySample randomSample probs logprobs categoryStartIdx l)

/-- What the callers rely on: output `i` is for entry `i` and from row `i`. -/
def ownSamples : List π → List κ → List SequenceMetadata → List SamplerOutput
  | p :: probs, q :: logprobs, m :: l =>
    ⟨m.seq.seqId,
      match samplingTypeOf m with
      | .greedy => greedySample q
      | .random => randomSample p⟩ :: ownSamples probs logprobs l
  | _, _, _ => []

end

/-- Whatever the rows and the row functions are, every entry gets an output of its own, sampled
    from its own row. -/
def SamplesOwnRows (l : List SequenceMetadata) : Prop :=
  ∀ {π κ : Type} (greedySample : κ → TokenId) (randomSample : π → TokenId) (probs : List π)
    (logprobs : List κ), probs.length = l.length → logprobs.length = l.length →
    sample greedySample randomSample probs logprobs l =
      ownSamples greedySample randomSample probs logprobs l

/-! ## The groups -/

section

variable {π κ : Type} (greedySample : κ → TokenId) (randomSample : π → TokenId)
  (probs : List π) (logprobs : List κ) (l : List SequenceMetadata)

/-- The tokens that a sampling type would draw from all rows. -/
def rowTokens : SamplingType → List TokenId
  | .greedy => logprobs.map greedySample
  | .random => probs.map randomSample

/-- The entries of a sampling type. -/
def entriesOf (samplingType : SamplingType) : List SequenceMetadata :=
  l.filter fun m => samplingTypeOf m == samplingType

/-- Each group is given the first rows of the batch. -/
theorem sampleCategory_eq (t : SamplingType) :
    sampleCategory greedySample randomSample probs logprobs 0 l t =
      List.zipWith SamplerOutput.mk ((entriesOf l t).map fun m => m.seq.seqId)
        ((rowTokens greedySample randomSample probs logprobs t).take (entriesOf l t).length) := by
  unfold sampleCategory entriesOf
  dsimp only
  split_ifs with hnone
  · rw [List.length_map] at hnone
    simp [List.length_eq_zero_iff.mp hnone]
  · cases t <;> simp [rowTokens, List.map_take]

theorem sample_eq :
    sample greedySample randomSample probs logprobs l =
      sampleCategory greedySample randomSample probs logprobs 0 l .greedy ++
        sampleCategory greedySample randomSample probs logprobs 0 l .random := by
  rw [sample, List.flatMap_cons, List.flatMap_cons, List.flatMap_nil, List.append_nil]

variable {greedySample randomSample probs logprobs l}

theorem length_rowTokens (hprobs : probs.length = l.length)
    (hlogprobs : logprobs.length = l.length) (t : SamplingType) :
    (rowTokens greedySample randomSample probs logprobs t).length = l.length := by
  cases t with
  | greedy => rw [rowTokens, List.length_map, hlogprobs]
  | random => rw [rowTokens, List.length_map, hprobs]

theorem ownSamples_of_type {t : SamplingType} (hall : ∀ m ∈ l, samplingTypeOf m = t)
    (hprobs : probs.length = l.length) (hlogprobs : logprobs.length = l.length) :
    ownSamples greedySample randomSample probs logprobs l =
      List.zipWith SamplerOutput.mk (l.map fun m => m.seq.seqId)
        (rowTokens greedySample randomSample probs logprobs t) := by
  induction l generalizing probs logprobs with
  | nil => cases probs <;> cases logprobs <;> simp [ownSamples]
  | cons m l ih =>
    obtain ⟨p, probs, rfl⟩ := List.exists_cons_of_length_eq_add_one hprobs
    obtain ⟨q, logprobs, rfl⟩ := List.exists_cons_of_length_eq_add_one hlogprobs
    rw [List.forall_mem_cons] at hall
    rw [ownSamples, ih hall.2 (by simpa using hprobs) (by simpa using hlogprobs), hall.1]
    cases t <;> rfl

/-- A batch of one type is one group, with all the rows. -/
theorem sample_of_type {t : SamplingType} (hall : ∀ m ∈ l, samplingTypeOf m = t)
    (hprobs : probs.length = l.length) (hlogprobs : logprobs.length = l.length) :
    sample greedySample randomSample probs logprobs l =
      ownSamples greedySample randomSample probs logprobs l := by
  have hown : entriesOf l t = l := List.filter_eq_self.mpr fun m hm => by simp [hall m hm]
  -- the group of the other type is empty
  have hother : ∀ u, u ≠ t → entriesOf l u = [] := fun u hu =>
    List.filter_eq_nil_iff.mpr fun m hm => by simp [hall m hm, hu.symm]
  have hlen : (rowTokens greedySample randomSample probs logprobs t).length = l.length :=
    length_rowTokens hprobs hlogprobs t
  have hall_rows := List.take_of_length_le (Nat.le_of_eq hlen)
  rw [sample_eq, ownSamples_of_type hall hprobs hlogprobs, sampleCategory_eq, sampleCategory_eq]
  cases t with
  | greedy => simp [hown, hother .random, hall_rows]
  | random => simp [hown, hother .greedy, hall_rows]

end

/-! ## Mixed batches -/

theorem ownSamples_range (l : List SequenceMetadata) (k : Nat) :
    (ownSamples id id (List.range' k l.length) (List.range' k l.length) l).map
      SamplerOutput.outputToken = List.range' k l.length := by
  induction l generalizing k with
  | nil => rfl
  | cons m l ih =>
    rw [List.length_cons, List.range'_succ, ownSamples, List.map_cons, ih]
    cases samplingTypeOf m <;> rfl

/-- If every row is its own index, each group that is not empty yields the index 0. -/
theorem zero_mem_sampleCategory {l : List SequenceMetadata} {t : SamplingType}
    (hsome : ∃ m ∈ l, samplingTypeOf m = t) :
    0 ∈ (sampleCategory id id (List.range l.length) (List.range l.length) 0 l t).map
      SamplerOutput.outputToken := by
  obtain ⟨m, hm, ht⟩ := hsome
  have hmem : m ∈ entriesOf l t := List.mem_filter.mpr ⟨hm, by simp [ht]⟩
  obtain ⟨a, rest, hentries⟩ := List.exists_cons_of_ne_nil (List.ne_nil_of_mem hmem)
  obtain ⟨n, hn⟩ := Nat.exists_eq_succ_of_ne_zero
    (Nat.ne_of_gt (List.length_pos_of_mem hm))
  have htokens : rowTokens id id (List.range l.length) (List.range l.length) t =
      List.range l.length := by
    cases t <;> simp [rowTokens]
  -- the first entry of the group gets the first row
  rw [sampleCategory_eq, htokens, hentries, hn, List.range_succ_eq_map]
  exact List.mem_cons_self

/-- There are two sampling types, so a batch that is not all of one has an entry of the other. -/
theorem exists_other_type {l : List SequenceMetadata} {t u : SamplingType} (htu : t ≠ u)
    (hnot : ¬ ∀ m ∈ l, samplingTypeOf m = t) : ∃ m ∈ l, samplingTypeOf m = u := by
  simp only [not_forall] at hnot
  obtain ⟨m, hm, hne⟩ := hnot
  refine ⟨m, hm, ?_⟩
  cases htype : samplingTypeOf m <;> cases t <;> cases u <;> simp_all

/-- **Every entry is sampled from its own row exactly if all entries have the same sampling
    type.**  The caller pairs outputs and entries by position. -/
theorem samplesOwnRows_iff (l : List SequenceMetadata) :
    SamplesOwnRows l ↔
      (∀ m ∈ l, samplingTypeOf m = .greedy) ∨ ∀ m ∈ l, samplingTypeOf m = .random := by
  constructor
  · intro hown
    by_contra hmixed
    rw [not_or] at hmixed
    -- with the rows numbered, the tokens must be distinct, but both groups start at row 0
    have heq := congrArg (List.map SamplerOutput.outputToken)
      (hown id id (List.range l.length) (List.range l.length) (by simp) (by simp))
    rw [List.range_eq_range', ownSamples_range, ← List.range_eq_range', sample_eq,
      List.map_append] at heq
    have hdistinct := heq ▸ (List.nodup_range (n := l.length))
    exact (List.nodup_append.mp hdistinct).2.2
      0 (zero_mem_sampleCategory (exists_other_type (by decide) hmixed.2))
      0 (zero_mem_sampleCategory (exists_other_type (by decide) hmixed.1)) rfl
  · rintro (hall | hall)
    · exact fun _ _ _ _ hprobs hlogprobs => sample_of_type hall hprobs hlogprobs
    · exact fun _ _ _ _ hprobs hlogprobs => sample_of_type hall hprobs hlogprobs

/-- A random entry followed by a greedy one. -/
def mixedBatch : List SequenceMetadata :=
  [⟨.new 0 [] [1] 2 none 0 {}, 0⟩, ⟨.new 1 [] [2] 2 none 0 { temperature := 0 }, 0⟩]

/-- With rows 10, 11 of probabilities and 20, 21 of log probabilities, the first output is for
    the second entry, from row 0, and the second output is for the first entry. -/
theorem mixedBatch_not_own_rows :
    sample id id [10, 11] [20, 21] mixedBatch = [⟨1, 20⟩, ⟨0, 10⟩] ∧
      ownSamples id id [10, 11] [20, 21] mixedBatch = [⟨0, 10⟩, ⟨1, 21⟩] ∧
      ¬ SamplesOwnRows mixedBatch := by
  refine ⟨rfl, rfl, fun hown => ?_⟩
  have heq := hown id id [10, 11] [20, 21] rfl rfl
  exact absurd heq (by decide)

end VAttention.Executor
