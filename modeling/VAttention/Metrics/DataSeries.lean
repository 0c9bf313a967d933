import Mathlib.Algebra.Order.Field.Rat
import VAttention.Core.Sequence
import VAttention.Lib.Checks
import VAttention.Lib.Lists
import VAttention.Lib.Series

/-!
# Metrics of the workers

`pull_worker_metrics` merges the metrics of the workers into those of the engine, one worker after
the other.  `operation_metrics_per_batch` is merged by `elementwise_merge`, which averages the
points with the same x.  From the third worker on it averages an average with a single value, so
what is at an x is the running mean of the workers' values and depends on their order.

Values are floats in the source and rationals here.
-/

namespace VAttention.Metrics

open VAttention.Core VAttention.Lib

variable {α : Type} [LinearOrder α]

/-! ## Data series -/

/-- `DataSeries`. -/
@[ext]
structure DataSeries (α : Type) where
  dataSeries : List (α × ℚ)
  xName : String
  yName : String
  lastDataY : ℚ
  deriving DecidableEq

namespace DataSeries

/-- `DataSeries.__init__`. -/
def new (xName yName : String) : DataSeries α := ⟨[], xName, yName, 0⟩

/-- `elementwise_merge`.  The dictionary's order is lost in the sorting by x. -/
def elementwiseMerge (self other : DataSeries α) : Except PyError (DataSeries α) := do
  if other.dataSeries.length = 0 then
    return self
  assertThat (self.xName = other.xName) (.assertionError "self.x_name == other.x_name")
  assertThat (self.yName = other.yName) (.assertionError "self.y_name == other.y_name")
  let dataSeries := averaged (self.dataSeries ++ other.dataSeries)
  match dataSeries.getLast? with
  | none => throw .indexError
  | some (_, y) => return { self with dataSeries, lastDataY := y }

end DataSeries

/-- The series of a worker, with the names that `MetricsStore.__init__` gives to all series of a
    metric.  A worker puts one value for a batch. -/
structure WorkerSeries (α : Type) (xName yName : String) where
  series : DataSeries α
  xName_eq : series.xName = xName
  yName_eq : series.yName = yName
  nodup : (series.dataSeries.map Prod.fst).Nodup

variable {xName yName : String}

/-- `pull_worker_metrics`, for the series of one metric. -/
def pullWorkerMetrics (workers : List (WorkerSeries α xName yName)) :
    Except PyError (DataSeries α) :=
  workers.foldlM (fun self worker => self.elementwiseMerge worker.series) (.new xName yName)

/-- The values that the workers have at an x. -/
def workerValues (workers : List (WorkerSeries α xName yName)) (x : α) : List ℚ :=
  workers.flatMap fun worker => valuesAt x worker.series.dataSeries

/-- The series has at each x the mean of the workers' values, and no other points. -/
structure HoldsMeans (workers : List (WorkerSeries α xName yName)) (r : DataSeries α) : Prop where
  sorted : SortedByKey r.dataSeries
  means : ∀ x, valuesAt x r.dataSeries = (mean? (workerValues workers x)).toList

/-- In every order, the workers are merged to one and the same series, that of the means. -/
def OrderIndependent (workers : List (WorkerSeries α xName yName)) : Prop :=
  ∃ r, HoldsMeans workers r ∧ ∀ order, order.Perm workers → pullWorkerMetrics order = .ok r

/-! ## What is merged -/

/-- The series while the workers are merged: at each x the running mean of the values so far. -/
structure Merged (xName yName : String) (values : α → List ℚ) (r : DataSeries α) : Prop where
  xName_eq : r.xName = xName
  yName_eq : r.yName = yName
  sorted : SortedByKey r.dataSeries
  values_eq : ∀ x, valuesAt x r.dataSeries = (runningMean (values x)).toList
  last_eq : r.lastDataY = (r.dataSeries.getLast?.map Prod.snd).getD 0

theorem Merged.new (xName yName : String) :
    Merged xName yName (fun _ : α => []) (.new xName yName) where
  xName_eq := rfl
  yName_eq := rfl
  sorted := List.Pairwise.nil
  values_eq _ := rfl
  last_eq := rfl

/-- The names, the running means and the order leave no choice. -/
theorem Merged.unique {values values' : α → List ℚ} {r r' : DataSeries α}
    (h : Merged xName yName values r) (h' : Merged xName yName values' r')
    (hvalues : ∀ x, runningMean (values x) = runningMean (values' x)) : r = r' := by
  have hdata : r.dataSeries = r'.dataSeries := by
    apply h.sorted.ext h'.sorted
    intro x
    rw [h.values_eq, h'.values_eq, hvalues]
  apply DataSeries.ext hdata
  · rw [h.xName_eq, h'.xName_eq]
  · rw [h.yName_eq, h'.yName_eq]
  · rw [h.last_eq, h'.last_eq, hdata]

/-- **Step lemma**: merging one worker. -/
theorem Merged.elementwiseMerge {values : α → List ℚ} {r : DataSeries α}
    (h : Merged xName yName values r) (worker : WorkerSeries α xName yName) :
    ∃ r', r.elementwiseMerge worker.series = .ok r' ∧
      Merged xName yName (fun x => values x ++ valuesAt x worker.series.dataSeries) r' := by
  by_cases hempty : worker.series.dataSeries = []
  · refine ⟨r, by simp [DataSeries.elementwiseMerge, hempty]; rfl, ?_⟩
    simpa [hempty] using h
  · have hne : averaged (r.dataSeries ++ worker.series.dataSeries) ≠ [] :=
      averaged_ne_nil (List.append_ne_nil_of_right_ne_nil _ hempty)
    have hlast := List.getLast?_eq_some_getLast hne
    refine ⟨{ r with
      dataSeries := averaged (r.dataSeries ++ worker.series.dataSeries)
      lastDataY := ((averaged (r.dataSeries ++ worker.series.dataSeries)).getLast hne).2 }, ?_, ?_⟩
    · simp [DataSeries.elementwiseMerge, hempty, hlast, h.xName_eq, h.yName_eq, worker.xName_eq,
        worker.yName_eq, assertThat]
      rfl
    · refine ⟨h.xName_eq, h.yName_eq, sortedByKey_averaged _, fun x => ?_, ?_⟩
      · rw [valuesAt_averaged, valuesAt_append, h.values_eq,
          mean?_runningMean_append (length_valuesAt_le worker.nodup x)]
      · simp [hlast]

theorem workerValues_append (workers workers' : List (WorkerSeries α xName yName)) (x : α) :
    workerValues (workers ++ workers') x = workerValues workers x ++ workerValues workers' x :=
  List.flatMap_append ..

theorem workerValues_singleton (worker : WorkerSeries α xName yName) (x : α) :
    workerValues [worker] x = valuesAt x worker.series.dataSeries :=
  List.flatMap_singleton ..

theorem workerValues_perm {workers workers' : List (WorkerSeries α xName yName)}
    (h : workers.Perm workers') (x : α) :
    (workerValues workers x).Perm (workerValues workers' x) :=
  h.flatMap_right _

/-- **Run lemma**: the workers are merged to their running means. -/
theorem exists_pullWorkerMetrics (workers : List (WorkerSeries α xName yName)) :
    ∃ r, pullWorkerMetrics workers = .ok r ∧
      Merged xName yName (workerValues workers) r := by
  induction workers using List.reverseRecOn with
  | nil => exact ⟨_, rfl, .new xName yName⟩
  | append_singleton workers worker ih =>
    obtain ⟨r, hr, hmerged⟩ := ih
    obtain ⟨r', hr', hmerged'⟩ := hmerged.elementwiseMerge worker
    refine ⟨r', ?_, ?_⟩
    · unfold pullWorkerMetrics at hr ⊢
      rw [List.foldlM_append, hr]
      exact seq_eq_ok.mpr ⟨r, rfl, by simpa using hr'⟩
    · convert hmerged' using 1
      funext x
      rw [workerValues_append, workerValues_singleton]

/-! ## When the order does not matter -/

variable {workers : List (WorkerSeries α xName yName)}

/-- The running mean in any order is the mean. -/
theorem OrderIndependent.runningMean_eq (h : OrderIndependent workers)
    {order : List (WorkerSeries α xName yName)} (hperm : order.Perm workers) (x : α) :
    runningMean (workerValues order x) = mean? (workerValues workers x) := by
  obtain ⟨r, hmeans, horder⟩ := h
  obtain ⟨r', hr', hmerged⟩ := exists_pullWorkerMetrics order
  obtain rfl : r = r' := by
    simpa [horder order hperm] using hr'
  have hlist : (runningMean (workerValues order x)).toList =
      (mean? (workerValues workers x)).toList := by
    rw [← hmerged.values_eq, hmeans.means]
  simpa using congrArg List.head? hlist

/-- A worker that has a value at x has no other one there. -/
theorem exists_worker_of_mem {x : α} {y : ℚ} (h : y ∈ workerValues workers x) :
    ∃ worker ∈ workers, workerValues [worker] x = [y] := by
  obtain ⟨worker, hworker, hy⟩ := List.mem_flatMap.mp h
  refine ⟨worker, hworker, ?_⟩
  rw [workerValues_singleton]
  have hlength := length_valuesAt_le worker.nodup x
  match hvalues : valuesAt x worker.series.dataSeries, hlength with
  | [], _ => simp [hvalues] at hy
  | [y'], _ =>
    have hyy' : y = y' := by simpa [hvalues] using hy
    rw [hyy']

/-- Of three workers with an x, any two have the same value: merged last, they can be swapped. -/
theorem OrderIndependent.values_eq (h : OrderIndependent workers) {x : α}
    (hlong : 2 < (workerValues workers x).length) {y y' : ℚ}
    (hy : y ∈ workerValues workers x) (hy' : y' ∈ workerValues workers x) : y = y' := by
  by_contra hne
  obtain ⟨worker, hworker, hvalue⟩ := exists_worker_of_mem hy
  obtain ⟨worker', hworker', hvalue'⟩ := exists_worker_of_mem hy'
  have hdiff : worker' ≠ worker := by
    rintro rfl
    exact hne (by simpa using hvalue.symm.trans hvalue')
  obtain ⟨rest, hperm⟩ := exists_perm_append_pair hworker hworker' hdiff
  have hswap : (rest ++ [worker', worker]).Perm workers :=
    ((List.Perm.swap worker worker' []).append_left rest).trans hperm.symm
  have hlast : ∀ w w' : WorkerSeries α xName yName, workerValues (rest ++ [w, w']) x =
      workerValues rest x ++ (workerValues [w] x ++ workerValues [w'] x) := by
    intro w w'
    rw [workerValues_append, ← workerValues_append [w] [w']]
    rfl
  have hrest : workerValues rest x ≠ [] := by
    intro hnil
    have hlength := (workerValues_perm hperm x).length_eq
    rw [hlast, hnil, hvalue, hvalue'] at hlength
    simp at hlength
    omega
  have hmean := h.runningMean_eq hperm.symm x
  have hmean' := h.runningMean_eq hswap x
  rw [hlast, hvalue, hvalue'] at hmean hmean'
  exact hne (eq_of_runningMean_swap hrest (hmean.trans hmean'.symm))

/-- **Merging does not depend on the order of the workers, and gives the means,** exactly if at each
    x at most two workers have a value or all values are equal. -/
theorem orderIndependent_iff (workers : List (WorkerSeries α xName yName)) :
    OrderIndependent workers ↔ ∀ x, (workerValues workers x).length ≤ 2 ∨
      ∀ y ∈ workerValues workers x, ∀ y' ∈ workerValues workers x, y = y' := by
  constructor
  · intro h x
    by_cases hshort : (workerValues workers x).length ≤ 2
    · exact Or.inl hshort
    · right
      intro y hy y' hy'
      exact h.values_eq (Nat.lt_of_not_le hshort) hy hy'
  · intro h
    obtain ⟨r, hr, hmerged⟩ := exists_pullWorkerMetrics workers
    have hmean : ∀ order, order.Perm workers → ∀ x,
        runningMean (workerValues order x) = mean? (workerValues workers x) := by
      intro order hperm x
      have hvalues := workerValues_perm hperm x
      rw [← mean?_perm hvalues]
      apply runningMean_eq_mean?
      simpa only [hvalues.length_eq, hvalues.mem_iff] using h x
    refine ⟨r, ⟨hmerged.sorted, fun x => ?_⟩, fun order hperm => ?_⟩
    · rw [hmerged.values_eq, hmean workers (.refl _)]
    · obtain ⟨r', hr', hmerged'⟩ := exists_pullWorkerMetrics order
      rw [hr', hmerged'.unique hmerged fun x => ?_]
      rw [hmean order hperm, hmean workers (.refl _)]

/-- A worker with one value, for batch 0. -/
def oneBatch (y : ℚ) : WorkerSeries Nat "Batch Id" "mlp_up_proj" where
  series := ⟨[(0, y)], "Batch Id", "mlp_up_proj", y⟩
  xName_eq := rfl
  yName_eq := rfl
  nodup := by simp

/-- Three workers with the values 0, 0 and 1, whose mean is 1 / 3.  The merged value is 1 / 2 if the
    1 comes last, and 1 / 4 if it comes first. -/
theorem oneBatch_order_matters :
    pullWorkerMetrics [oneBatch 0, oneBatch 0, oneBatch 1] =
      .ok ⟨[(0, 1 / 2)], "Batch Id", "mlp_up_proj", 1 / 2⟩ ∧
    pullWorkerMetrics [oneBatch 1, oneBatch 0, oneBatch 0] =
      .ok ⟨[(0, 1 / 4)], "Batch Id", "mlp_up_proj", 1 / 4⟩ ∧
    ¬ OrderIndependent [oneBatch 0, oneBatch 0, oneBatch 1] := by
  refine ⟨by decide +kernel, by decide +kernel, fun h => ?_⟩
  have hvalues : workerValues [oneBatch 0, oneBatch 0, oneBatch 1] 0 = [0, 0, 1] := by
    decide +kernel
  have hzero : (0 : ℚ) = 1 := by
    apply h.values_eq (x := 0) <;> simp [hvalues]
  norm_num at hzero

end VAttention.Metrics
