import VAttention.Engine.Preemption
import VAttention.Executor.Selection

/-!
# Which rows a batch is sampled from

The sampler finds the last row of every entry of a batch exactly if no decode is listed before
a prompt chunk.  Sarathi lists its decodes first.
-/

namespace VAttention.Engine

open VAttention.Core VAttention.Lib VAttention.Scheduler VAttention.Manager VAttention.Worker
open VAttention.Executor

/-- **The sampler selects the last rows of the entries, in order, exactly if the prompts come
    first.**  Marks make the selected rows visible: row `i` of the selection must be the last
    row of entry `i`, so padding is never selected. -/
theorem selectedMarks_eq_range_iff {padded : Bool} {l : List SequenceMetadata}
    {inputs : List InputRow} (h : prepareInputs padded l = .ok inputs) :
    selectedMarks padded l = .ok ((List.range l.length).map some) ↔ PromptsFirst l := by
  rw [← prepareMarkedInputs_snd] at h
  obtain ⟨rows, hrows, -⟩ := map_eq_ok.mp h
  obtain ⟨n, hmarks⟩ := prepareMarkedInputs_fst hrows
  have hselect : selectedMarks padded l = pruneHiddenStates (rows.map Prod.fst) l := by
    rw [selectedMarks, hrows]
    rfl
  rw [hselect, hmarks, pruneHiddenStates_eq_ok, List.map_map]
  exact ⟨promptsFirst_of_selected, fun hfirst => selected_of_promptsFirst hfirst n⟩

/-- A prompt of two tokens and a decode, in this order. -/
def promptThenDecode : List SequenceMetadata :=
  [⟨.new 0 [] [1, 2] 2 none 0 {}, 2⟩, ⟨.new 1 [] [3] 2 none 0 {}, 0⟩]

theorem promptThenDecode_selected :
    selectedMarks true promptThenDecode =
      .ok ((List.range promptThenDecode.length).map some) := by
  have hinputs : ∃ inputs, prepareInputs true promptThenDecode = .ok inputs := ⟨_, rfl⟩
  obtain ⟨inputs, hinputs⟩ := hinputs
  refine (selectedMarks_eq_range_iff hinputs).mpr ?_
  exact List.pairwise_pair.mpr fun _ => rfl

theorem sarathiConfig_limit (n : Nat) (h : Policy.sarathi (.fixed 4) = .vllm n) : 4 ≤ n := by
  cases h

/-- The Sarathi policy with chunks of four tokens, over blocks of two tokens and for a model of
    four. -/
def sarathiConfig : EngineConfig where
  scheduler := {
    policy := .sarathi (.fixed 4)
    maxNumSeqs := 2
    maxModelLen := 4
    numPipelineStages := 1
    vllm_limit := sarathiConfig_limit }
  blockSize := 2
  eosTokenId := none
  detokenize _ _ _ _ := ⟨[], [], 0, 0⟩
  padInputs := true

/-- Two requests; the first is prefilled in the first step. -/
def mixedRun : List Event := [simpleRequest 0 [1], simpleRequest 1 [2, 3], simpleStep]

/-- The second step decodes the first sequence and prefills the second.  Neither entry is
    sampled from its own row: the first one gets an inner row of the prompt, the second one
    the row of the decode. -/
theorem mixedRun_selects_foreign_rows :
    ∃ e l, (pagedEngine 4).run sarathiConfig mixedRun = .ok e ∧
      e.stepMetadata sarathiConfig ⟨9, fun _ => 5⟩ = .ok [l] ∧
      selectedMarks sarathiConfig.padInputs l = .ok [none, some 0] ∧
      selectedMarks sarathiConfig.padInputs l ≠ .ok ((List.range l.length).map some) := by
  have hstate : ((pagedEngine 4).run sarathiConfig mixedRun >>= fun e =>
      (e.stepMetadata sarathiConfig ⟨9, fun _ => 5⟩).map
        (List.map fun l => (l.length, selectedMarks sarathiConfig.padInputs l))) =
      .ok [(2, .ok [none, some 0])] := by rfl
  obtain ⟨e, hrun, hstep⟩ := seq_eq_ok.mp hstate
  obtain ⟨lists, hlists, hmarks⟩ := map_eq_ok.mp hstep
  obtain ⟨l, rfl, hpair⟩ := List.map_eq_singleton_iff.mp hmarks
  obtain ⟨hlen, hselected⟩ := Prod.mk.inj hpair
  refine ⟨e, l, hrun, hlists, hselected, ?_⟩
  rw [hselected, hlen]
  decide

end VAttention.Engine
