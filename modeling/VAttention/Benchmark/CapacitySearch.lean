import Mathlib.Data.Rat.Floor
import VAttention.Lib.Rounding

/-!
# Capacity search

`CapacitySearch.search` looks for the largest rate of requests that meets the service level: it
probes the midpoint of an interval, moves the left end up to a probe that meets it and the right
end down to one that does not.  Every success overwrites the result, so what is reported is the
last success.  It is the best one as long as the interval does not turn over: a failed probe with a
long delay moves the right end to half of the probed rate, which can lie below the left end.

Rates and delays are floats in the source and rationals here.
-/

namespace VAttention.Benchmark

open VAttention.Lib

/-! ## The search -/

/-- The options of a search. -/
structure SearchArgs where
  maxIterations : Nat
  minSearchGranularity : ℚ
  schedulingDelaySloValue : ℚ

/-- The result of `is_under_sla`.  The delay is compared with its limit, so a probe that meets the
    service level has one. -/
structure ProbeResult where
  isUnderSla : Bool
  schedulingDelay : Option ℚ
  tbt : ℚ
  runId : String
  isSome_of_under : isUnderSla = true → schedulingDelay.isSome = true

/-- The variables of `search`. -/
structure SearchState where
  left : ℚ
  right : ℚ
  qps : ℚ
  lastQps : ℚ
  maxQpsUnderSla : Option ℚ
  minQpsOverSla : ℚ
  schedulingDelayAtMaxQps : Option ℚ
  tbtAtMaxQps : Option ℚ
  bestRunId : Option String
  foundValidQps : Bool

/-- Their values before the loop. -/
def SearchState.init (startQps : ℚ) : SearchState where
  left := 0
  right := startQps * 2
  qps := 0
  lastQps := 0
  maxQpsUnderSla := none
  minQpsOverSla := 2 ^ 32
  schedulingDelayAtMaxQps := none
  tbtAtMaxQps := none
  bestRunId := none
  foundValidQps := false

/-- The first half of an iteration: the rate to probe, or `none` if the loop is left. -/
def nextQps (args : SearchArgs) (s : SearchState) : Option ℚ :=
  if |s.left - s.right| < args.minSearchGranularity * s.qps / 100 then none
  else
    let qps := roundTo 100 ((s.left + s.right) / 2)
    if qps = s.lastQps then none else some qps

/-- The right end after a probe that meets the service level. -/
def raisedRight (args : SearchArgs) (s : SearchState) (qps delay : ℚ) : ℚ :=
  if delay < args.schedulingDelaySloValue / 8 then min (s.right * 4) s.minQpsOverSla
  else if delay < args.schedulingDelaySloValue / 4 then min (s.right * 2) s.minQpsOverSla
  else if qps > 4 / 5 * s.right then min (s.right * 2) s.minQpsOverSla
  else s.right

/-- The right end after a probe that does not.  The second branch is never taken. -/
def loweredRight (qps delay : ℚ) : ℚ :=
  if delay > 500 then qps / 2
  else if delay > 1000 then qps / 4
  else qps

/-- The second half of an iteration. -/
def recordProbe (args : SearchArgs) (s : SearchState) (qps : ℚ) (result : ProbeResult)
    (delay : ℚ) : SearchState :=
  if result.isUnderSla then
    { s with
      qps
      lastQps := qps
      foundValidQps := true
      maxQpsUnderSla := some qps
      schedulingDelayAtMaxQps := some delay
      tbtAtMaxQps := some result.tbt
      bestRunId := some result.runId
      right := raisedRight args s qps delay
      left := qps }
  else
    { s with
      qps
      lastQps := qps
      right := loweredRight qps delay
      minQpsOverSla := min s.minQpsOverSla qps }

/-- A probe, with the left end at that time. -/
structure Probe where
  left : ℚ
  qps : ℚ
  result : ProbeResult

/-- The loop of `search`, with the probes made so far.  `outcomes` gives the results in order. -/
def searchLoop (args : SearchArgs) (outcomes : Nat → ProbeResult) :
    Nat → List Probe → SearchState → List Probe × SearchState
  | 0, probes, s => (probes, s)
  | n + 1, probes, s =>
    match nextQps args s with
    | none => (probes, s)
    | some qps =>
      let result := outcomes probes.length
      let probes := probes ++ [⟨s.left, qps, result⟩]
      match result.schedulingDelay with
      | none => (probes, s)
      | some delay => searchLoop args outcomes n probes (recordProbe args s qps result delay)

/-- What `search` returns besides the configuration of the job. -/
structure SearchResult where
  maxQpsUnderSla : Option ℚ
  schedulingDelayAtMaxQps : Option ℚ
  tbtAtMaxQps : Option ℚ
  deriving DecidableEq

variable (args : SearchArgs) (startQps : ℚ) (outcomes : Nat → ProbeResult)

/-- The probes of a search, and the variables at its end. -/
def runSearch : List Probe × SearchState :=
  searchLoop args outcomes args.maxIterations [] (.init startQps)

/-- The probes of a search. -/
def probes : List Probe := (runSearch args startQps outcomes).1

/-- `search`; `none` is the empty dictionary. -/
def search : Option SearchResult :=
  let s := (runSearch args startQps outcomes).2
  if s.foundValidQps then
    some ⟨s.maxQpsUnderSla, s.schedulingDelayAtMaxQps, s.tbtAtMaxQps⟩
  else none

/-! ## What is reported -/

/-- The probes that meet the service level. -/
def successes (ps : List Probe) : List Probe := ps.filter (·.result.isUnderSla)

/-- If a probe meets the service level, then the result is that of such a probe, and of one with the
    largest rate. -/
def ReportsBest : Prop :=
  successes (probes args startQps outcomes) ≠ [] →
    ∃ p ∈ successes (probes args startQps outcomes),
      (∀ p' ∈ successes (probes args startQps outcomes), p'.qps ≤ p.qps) ∧
      search args startQps outcomes =
        some ⟨some p.qps, p.result.schedulingDelay, some p.result.tbt⟩

variable {args startQps outcomes} {s : SearchState} {ps : List Probe}

@[simp] theorem successes_append (ps ps' : List Probe) :
    successes (ps ++ ps') = successes ps ++ successes ps' := List.filter_append ..

theorem successes_singleton_of_under {p : Probe} (h : p.result.isUnderSla = true) :
    successes [p] = [p] := by
  simp [successes, h]

theorem successes_singleton_of_over {p : Probe} (h : p.result.isUnderSla = false) :
    successes [p] = [] := by
  simp [successes, h]

/-- A probe without a delay is no success. -/
theorem successes_snoc_of_no_delay {left qps : ℚ} {result : ProbeResult}
    (h : result.schedulingDelay = none) :
    successes (ps ++ [⟨left, qps, result⟩]) = successes ps := by
  have hover : result.isUnderSla = false := by
    by_contra hunder
    have hsome := result.isSome_of_under (by simpa using hunder)
    simp [h] at hsome
  rw [successes_append, successes_singleton_of_over hover, List.append_nil]

/-- **Rule of the search**: what holds before the loop and is kept by every probe holds at its
    end.  A probe without a delay ends the loop. -/
theorem searchLoop_invariant (I : List Probe → SearchState → Prop)
    (hprobe : ∀ ps s qps result delay, I ps s → nextQps args s = some qps →
      result.schedulingDelay = some delay →
      I (ps ++ [⟨s.left, qps, result⟩]) (recordProbe args s qps result delay))
    (hlast : ∀ ps s qps result, I ps s → result.schedulingDelay = none →
      I (ps ++ [⟨s.left, qps, result⟩]) s)
    (n : Nat) (hs : I ps s) :
    I (searchLoop args outcomes n ps s).1 (searchLoop args outcomes n ps s).2 := by
  induction n generalizing ps s with
  | zero => exact hs
  | succ n ih =>
    unfold searchLoop
    split
    · exact hs
    · rename_i qps hnext
      dsimp only
      split
      · rename_i hdelay
        exact hlast ps s qps _ hs hdelay
      · rename_i delay hdelay
        exact ih (hprobe ps s qps _ delay hs hnext hdelay)

/-- What the variables remember of the last success. -/
structure Remembers (s : SearchState) (p : Probe) : Prop where
  found : s.foundValidQps = true
  qps : s.maxQpsUnderSla = some p.qps
  delay : s.schedulingDelayAtMaxQps = p.result.schedulingDelay
  tbt : s.tbtAtMaxQps = some p.result.tbt
  left : s.left = p.qps

/-- The variables remember the last success, or there is none. -/
def RemembersLast (ps : List Probe) (s : SearchState) : Prop :=
  match (successes ps).getLast? with
  | none => s.foundValidQps = false
  | some p => Remembers s p

theorem RemembersLast.probe {qps delay : ℚ} {result : ProbeResult} (h : RemembersLast ps s)
    (hdelay : result.schedulingDelay = some delay) :
    RemembersLast (ps ++ [⟨s.left, qps, result⟩]) (recordProbe args s qps result delay) := by
  unfold RemembersLast at h ⊢
  cases hunder : result.isUnderSla with
  | true =>
    rw [successes_append, successes_singleton_of_under hunder, List.getLast?_concat]
    simp only [recordProbe, hunder, if_true]
    exact ⟨rfl, rfl, hdelay.symm, rfl, rfl⟩
  | false =>
    rw [successes_append, successes_singleton_of_over hunder, List.append_nil]
    simp only [recordProbe, hunder, Bool.false_eq_true, if_false]
    split at h
    · exact h
    · exact ⟨h.found, h.qps, h.delay, h.tbt, h.left⟩

theorem RemembersLast.last {qps : ℚ} {result : ProbeResult} (h : RemembersLast ps s)
    (hdelay : result.schedulingDelay = none) :
    RemembersLast (ps ++ [⟨s.left, qps, result⟩]) s := by
  unfold RemembersLast at h ⊢
  rwa [successes_snoc_of_no_delay hdelay]

/-- **The search remembers its last success.** -/
theorem runSearch_remembersLast (args : SearchArgs) (startQps : ℚ) (outcomes : Nat → ProbeResult) :
    RemembersLast (runSearch args startQps outcomes).1 (runSearch args startQps outcomes).2 := by
  apply searchLoop_invariant RemembersLast
  · intro ps s qps result delay h _ hdelay
    exact h.probe hdelay
  · intro ps s qps result h hdelay
    exact h.last hdelay
  · rfl

/-- The last success is at the largest rate of all. -/
def LastSuccessHighest (ps : List Probe) : Prop :=
  ∀ p ∈ (successes ps).getLast?, ∀ p' ∈ successes ps, p'.qps ≤ p.qps

theorem remembers_of_getLast? {p : Probe}
    (hp : (successes (probes args startQps outcomes)).getLast? = some p) :
    Remembers (runSearch args startQps outcomes).2 p := by
  have hlast := runSearch_remembersLast args startQps outcomes
  unfold RemembersLast at hlast
  unfold probes at hp
  rwa [hp] at hlast

/-- What is reported is the last success. -/
theorem search_eq_last {p : Probe}
    (hp : (successes (probes args startQps outcomes)).getLast? = some p) :
    search args startQps outcomes =
      some ⟨some p.qps, p.result.schedulingDelay, some p.result.tbt⟩ := by
  have hlast := remembers_of_getLast? hp
  simp only [search, hlast.found, if_true, hlast.qps, hlast.delay, hlast.tbt]

theorem reportsBest_iff_lastSuccessHighest :
    ReportsBest args startQps outcomes ↔ LastSuccessHighest (probes args startQps outcomes) := by
  constructor
  · intro h p hp p' hp'
    obtain ⟨best, -, hbest, hsearch⟩ := h (List.ne_nil_of_mem hp')
    rw [search_eq_last hp] at hsearch
    -- the result has the rate of the last success and of the best one
    have hqps : p.qps = best.qps := by
      simpa using congrArg (fun r => r.map SearchResult.maxQpsUnderSla) hsearch
    rw [hqps]
    exact hbest p' hp'
  · intro h hne
    have hlast := List.getLast?_eq_some_getLast hne
    exact ⟨_, List.getLast_mem hne, h _ hlast, search_eq_last hlast⟩

/-! ## When the last success is the best one -/

/-- The interval has not turned over, and its right end is not above a failed probe. -/
structure Interval (s : SearchState) : Prop where
  left_nonneg : 0 ≤ s.left
  left_multiple : IsMultiple 100 s.left
  left_le : s.left ≤ s.right
  right_le : s.right ≤ s.minQpsOverSla

/-- A failed probe with a long delay does not move the right end below the left one. -/
def Probe.KeepsInterval (p : Probe) : Prop :=
  p.result.isUnderSla = false → ∀ delay ∈ p.result.schedulingDelay, delay > 500 →
    p.left ≤ p.qps / 2

theorem Interval.init (hstart : 0 ≤ startQps) (hbound : startQps ≤ 2 ^ 31) :
    Interval (.init startQps) where
  left_nonneg := le_rfl
  left_multiple := ⟨0, by simp [SearchState.init]⟩
  left_le := by
    show 0 ≤ startQps * 2
    linarith
  right_le := by
    show startQps * 2 ≤ 2 ^ 32
    linarith

theorem eq_of_nextQps {qps : ℚ} (h : nextQps args s = some qps) :
    qps = roundTo 100 ((s.left + s.right) / 2) := by
  unfold nextQps at h
  dsimp only at h
  split_ifs at h
  exact (Option.some.inj h).symm

/-- A probe lies in the interval. -/
theorem Interval.le_qps (h : Interval s) {qps : ℚ} (hnext : nextQps args s = some qps) :
    s.left ≤ qps ∧ qps ≤ s.right := by
  rw [eq_of_nextQps hnext]
  have hmid : s.left ≤ (s.left + s.right) / 2 := by linarith [h.left_le]
  exact ⟨le_roundTo (by decide) h.left_multiple hmid,
    roundTo_midpoint_le (by decide) h.left_multiple h.left_le⟩

/-- Whatever the delay, the right end stays above a success and below the failures. -/
theorem Interval.raisedRight_mem (h : Interval s) {qps : ℚ} (hle : qps ≤ s.right)
    (args : SearchArgs) (delay : ℚ) :
    qps ≤ raisedRight args s qps delay ∧ raisedRight args s qps delay ≤ s.minQpsOverSla := by
  have hright : 0 ≤ s.right := h.left_nonneg.trans h.left_le
  have hover : qps ≤ s.minQpsOverSla := hle.trans h.right_le
  unfold raisedRight
  split_ifs
  · exact ⟨le_min (by linarith) hover, min_le_right ..⟩
  · exact ⟨le_min (by linarith) hover, min_le_right ..⟩
  · exact ⟨le_min (by linarith) hover, min_le_right ..⟩
  · exact ⟨hle, h.right_le⟩

theorem loweredRight_le {qps : ℚ} (hqps : 0 ≤ qps) (delay : ℚ) : loweredRight qps delay ≤ qps := by
  unfold loweredRight
  split_ifs <;> linarith

/-- **Step lemma**: a probe that keeps the interval. -/
theorem Interval.probe (h : Interval s) {qps delay : ℚ} {result : ProbeResult}
    (hnext : nextQps args s = some qps) (hdelay : result.schedulingDelay = some delay)
    (hkeeps : Probe.KeepsInterval ⟨s.left, qps, result⟩) :
    Interval (recordProbe args s qps result delay) := by
  obtain ⟨hle, hge⟩ := h.le_qps hnext
  have hnonneg : 0 ≤ qps := h.left_nonneg.trans hle
  cases hunder : result.isUnderSla with
  | true =>
    obtain ⟨hlow, hhigh⟩ := h.raisedRight_mem hge args delay
    simp only [recordProbe, hunder, if_true]
    refine ⟨hnonneg, ?_, hlow, hhigh⟩
    show IsMultiple 100 qps
    rw [eq_of_nextQps hnext]
    exact isMultiple_roundTo ..
  | false =>
    have hlow : s.left ≤ loweredRight qps delay := by
      unfold loweredRight
      split_ifs with hlong hlonger
      · exact hkeeps hunder delay hdelay hlong
      · exact absurd (lt_trans (by norm_num) hlonger) hlong
      · exact hle
    have hhigh : loweredRight qps delay ≤ qps := loweredRight_le hnonneg delay
    simp only [recordProbe, hunder, Bool.false_eq_true, if_false]
    exact ⟨h.left_nonneg, h.left_multiple, hlow, le_min (hhigh.trans (hge.trans h.right_le)) hhigh⟩

/-- No success lies above the left end. -/
def BelowLeft (ps : List Probe) (s : SearchState) : Prop := ∀ p ∈ successes ps, p.qps ≤ s.left

theorem BelowLeft.probe {qps : ℚ} (h : BelowLeft ps s) (hle : s.left ≤ qps) (args : SearchArgs)
    (result : ProbeResult) (delay : ℚ) :
    BelowLeft (ps ++ [⟨s.left, qps, result⟩]) (recordProbe args s qps result delay) := by
  unfold BelowLeft at h ⊢
  cases hunder : result.isUnderSla with
  | true =>
    rw [successes_append, successes_singleton_of_under hunder]
    simp only [recordProbe, hunder, if_true]
    intro p hp
    rcases List.mem_append.mp hp with hp | hp
    · exact (h p hp).trans hle
    · rw [List.mem_singleton.mp hp]
  | false =>
    rw [successes_append, successes_singleton_of_over hunder, List.append_nil]
    simp only [recordProbe, hunder, Bool.false_eq_true, if_false]
    exact h

/-- **Run lemma**: as long as the probes keep the interval, no success lies above the left end. -/
theorem runSearch_belowLeft (hstart : 0 ≤ startQps) (hbound : startQps ≤ 2 ^ 31)
    (hkeeps : ∀ p ∈ probes args startQps outcomes, p.KeepsInterval) :
    BelowLeft (probes args startQps outcomes) (runSearch args startQps outcomes).2 := by
  have hinv : (∀ p ∈ probes args startQps outcomes, p.KeepsInterval) →
      Interval (runSearch args startQps outcomes).2 ∧
        BelowLeft (probes args startQps outcomes) (runSearch args startQps outcomes).2 := by
    apply searchLoop_invariant fun ps s => (∀ p ∈ ps, Probe.KeepsInterval p) →
      Interval s ∧ BelowLeft ps s
    · intro ps s qps result delay ih hnext hdelay hall
      obtain ⟨hs, hbelow⟩ := ih fun p hp => hall p (List.mem_append_left _ hp)
      have hlast := hall ⟨s.left, qps, result⟩ (by simp)
      obtain ⟨hle, -⟩ := hs.le_qps hnext
      exact ⟨hs.probe hnext hdelay hlast, hbelow.probe hle args result delay⟩
    · intro ps s qps result ih hdelay hall
      obtain ⟨hs, hbelow⟩ := ih fun p hp => hall p (List.mem_append_left _ hp)
      refine ⟨hs, ?_⟩
      unfold BelowLeft
      rwa [successes_snoc_of_no_delay hdelay]
    · intro _
      exact ⟨.init hstart hbound, by simp [BelowLeft, successes]⟩
  exact (hinv hkeeps).2

theorem lastSuccessHighest_of_keepsInterval (hstart : 0 ≤ startQps) (hbound : startQps ≤ 2 ^ 31)
    (hkeeps : ∀ p ∈ probes args startQps outcomes, p.KeepsInterval) :
    LastSuccessHighest (probes args startQps outcomes) := by
  intro p hp p' hp'
  rw [← (remembers_of_getLast? hp).left]
  exact runSearch_belowLeft hstart hbound hkeeps p' hp'

/-- A limit of 5 for the delay, and three probes. -/
def threeProbes : SearchArgs := ⟨3, 5 / 2, 5⟩

/-- The first and the third probe meet the service level, the second one has a delay of 600. -/
def overloadedOnce (i : Nat) : ProbeResult :=
  if i = 1 then ⟨false, some 600, 1, "over", by decide⟩
  else ⟨true, some 4, 1, "under", by decide⟩

end VAttention.Benchmark
