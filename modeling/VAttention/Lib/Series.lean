import Mathlib.Algebra.Field.Basic
import Mathlib.Algebra.Ring.CharZero
import Mathlib.Data.List.AList
import Mathlib.Data.List.Induction
import Mathlib.Data.List.Sort
import Mathlib.Tactic.FieldSimp
import Mathlib.Tactic.LinearCombination

/-!
# Points grouped by key, and their averages

A list of points `(k, v)` is grouped by key, each group is replaced by its mean, and the result is
sorted by key.  What such a list says about a key is `valuesAt`, which takes all operations to
operations on the values at one key.

Averaging the average so far with every next value is `runningMean`.  It weighs later values more,
and agrees with the mean for up to two values or for equal ones.
-/

namespace VAttention.Lib

/-! ## Values at a key -/

section Grouping

variable {κ β : Type} [DecidableEq κ] {k : κ} {v : β} {points points' : List (κ × β)}

/-- The values at a key, in order. -/
def valuesAt (k : κ) (points : List (κ × β)) : List β :=
  (points.filter (·.1 = k)).map Prod.snd

@[simp] theorem valuesAt_nil (k : κ) : valuesAt k ([] : List (κ × β)) = [] := rfl

@[simp] theorem valuesAt_append (k : κ) (points points' : List (κ × β)) :
    valuesAt k (points ++ points') = valuesAt k points ++ valuesAt k points' := by
  simp [valuesAt]

theorem valuesAt_cons (p : κ × β) (k : κ) (points : List (κ × β)) :
    valuesAt k (p :: points) = valuesAt k [p] ++ valuesAt k points :=
  valuesAt_append k [p] points

theorem valuesAt_singleton_self (k : κ) (v : β) : valuesAt k [(k, v)] = [v] := by
  simp [valuesAt]

theorem valuesAt_singleton_of_ne {p : κ × β} (h : k ≠ p.1) : valuesAt k [p] = [] := by
  simp [valuesAt, h.symm]

theorem mem_valuesAt : v ∈ valuesAt k points ↔ (k, v) ∈ points := by
  simp [valuesAt]

/-- With distinct keys there is at most one value at each. -/
theorem length_valuesAt_le (h : (points.map Prod.fst).Nodup) (k : κ) :
    (valuesAt k points).length ≤ 1 := by
  rw [valuesAt, List.length_map, ← List.countP_eq_length_filter]
  calc points.countP (·.1 = k) = (points.map Prod.fst).count k := by
        rw [List.count, List.countP_map]
        rfl
    _ ≤ 1 := List.nodup_iff_count_le_one.mp h k

/-- A dictionary of lists, to which the points are added in order. -/
def groupByKey (points : List (κ × β)) : AList fun _ : κ => List β :=
  points.foldl (fun groups p => groups.insert p.1 ((groups.lookup p.1).getD [] ++ [p.2])) ∅

theorem groupByKey_concat (points : List (κ × β)) (p : κ × β) :
    groupByKey (points ++ [p]) = (groupByKey points).insert p.1
      (((groupByKey points).lookup p.1).getD [] ++ [p.2]) := by
  simp [groupByKey]

/-- A group holds the values at its key. -/
theorem lookup_groupByKey (points : List (κ × β)) (k : κ) :
    (groupByKey points).lookup k =
      if valuesAt k points = [] then none else some (valuesAt k points) := by
  induction points using List.reverseRecOn with
  | nil => simp [groupByKey]
  | append_singleton points p ih =>
    rw [groupByKey_concat, valuesAt_append]
    by_cases hk : k = p.1
    · subst hk
      rw [AList.lookup_insert, ih, valuesAt_singleton_self]
      split <;> simp_all
    · rw [AList.lookup_insert_ne hk, ih, valuesAt_singleton_of_ne hk, List.append_nil]

end Grouping

/-! ## Averages -/

section Averages

variable {K : Type} [Field K] {l : List K} {a b : K}

/-- The arithmetic mean of a non-empty list. -/
def mean? (l : List K) : Option K := if l = [] then none else some (l.sum / l.length)

/-- The average so far averaged with every next value. -/
def runningMean : List K → Option K
  | [] => none
  | y :: ys => some (ys.foldl (fun acc y => (acc + y) / (2 : Nat)) y)

@[simp] theorem mean?_nil : mean? ([] : List K) = none := by
  simp [mean?]

theorem mean?_eq_some (h : l ≠ []) : mean? l = some (l.sum / l.length) := by
  simp [mean?, h]

@[simp] theorem mean?_singleton (a : K) : mean? [a] = some a := by
  simp [mean?]

theorem mean?_perm {l' : List K} (h : l.Perm l') : mean? l = mean? l' := by
  have hnil : l = [] ↔ l' = [] := by
    rw [← List.length_eq_zero_iff, ← List.length_eq_zero_iff, h.length_eq]
  simp only [mean?, hnil, h.sum_eq, h.length_eq]

theorem runningMean_concat_of_some (h : runningMean l = some a) (b : K) :
    runningMean (l ++ [b]) = some ((a + b) / 2) := by
  cases l with
  | nil => simp [runningMean] at h
  | cons y ys =>
    simp only [runningMean, Option.some.injEq, Nat.cast_ofNat] at h
    simp [runningMean, h]

theorem exists_runningMean (h : l ≠ []) : ∃ a, runningMean l = some a := by
  cases l with
  | nil => exact absurd rfl h
  | cons y ys => exact ⟨_, rfl⟩

/-- One turn of the running mean is the mean of what there is and of at most one more value. -/
theorem mean?_runningMean_append {new : List K} (hnew : new.length ≤ 1) :
    mean? ((runningMean l).toList ++ new) = runningMean (l ++ new) := by
  by_cases hl : l = []
  · subst hl
    match new, hnew with
    | [], _ => simp [runningMean]
    | [b], _ => simp [runningMean]
  · obtain ⟨a, ha⟩ := exists_runningMean hl
    match new, hnew with
    | [], _ => simp [ha]
    | [b], _ =>
      rw [runningMean_concat_of_some ha, ha]
      simp [mean?, one_add_one_eq_two]

/-- The running mean of equal values. -/
theorem runningMean_of_forall_eq [CharZero K] (hl : l ≠ []) (h : ∀ y ∈ l, y = a) :
    runningMean l = some a := by
  induction l using List.reverseRecOn with
  | nil => exact absurd rfl hl
  | append_singleton l b ih =>
    have hb : b = a := h b (by simp)
    by_cases hl' : l = []
    · simp [hl', hb, runningMean]
    · have htwo : (2 : K) ≠ 0 := two_ne_zero
      rw [runningMean_concat_of_some (ih hl' fun y hy => h y (by simp [hy])), hb, ← two_mul,
        mul_div_cancel_left₀ _ htwo]

theorem mean?_of_forall_eq [CharZero K] (hl : l ≠ []) (h : ∀ y ∈ l, y = a) :
    mean? l = some a := by
  have hlength : (l.length : K) ≠ 0 := by
    simpa using hl
  rw [mean?_eq_some hl, List.eq_replicate_of_mem h, List.sum_replicate, List.length_replicate,
    nsmul_eq_mul, mul_div_cancel_left₀ _ hlength]

/-- The running mean is the mean for up to two values, and for equal values. -/
theorem runningMean_eq_mean? [CharZero K] (h : l.length ≤ 2 ∨ ∀ y ∈ l, ∀ y' ∈ l, y = y') :
    runningMean l = mean? l := by
  rcases h with hshort | hequal
  · match l, hshort with
    | [], _ => simp [runningMean]
    | [a], _ => simp [runningMean]
    | [a, b], _ => simp [runningMean, mean?, one_add_one_eq_two]
  · cases l with
    | nil => simp [runningMean]
    | cons a l =>
      have hall : ∀ y ∈ a :: l, y = a := fun y hy => hequal y hy a List.mem_cons_self
      have hne : a :: l ≠ [] := List.cons_ne_nil a l
      rw [runningMean_of_forall_eq hne hall, mean?_of_forall_eq hne hall]

/-- After another value, the order of two values matters. -/
theorem eq_of_runningMean_swap [CharZero K] (hl : l ≠ [])
    (h : runningMean (l ++ [a, b]) = runningMean (l ++ [b, a])) : a = b := by
  obtain ⟨acc, hacc⟩ := exists_runningMean hl
  have hab : ∀ a b, runningMean (l ++ [a, b]) = some (((acc + a) / 2 + b) / 2) := by
    intro a b
    rw [show l ++ [a, b] = l ++ [a] ++ [b] by simp]
    exact runningMean_concat_of_some (runningMean_concat_of_some hacc a) b
  rw [hab, hab] at h
  have hsum : ((acc + a) / 2 + b) / 2 = ((acc + b) / 2 + a) / 2 := Option.some.inj h
  field_simp at hsum
  linear_combination -hsum

end Averages

/-! ## Averaged points -/

section Averaged

variable {κ K : Type} [LinearOrder κ]

/-- The points have strictly increasing keys. -/
def SortedByKey (points : List (κ × K)) : Prop := points.Pairwise fun p q => p.1 < q.1

/-- Sorted points with the same values at every key are the same. -/
theorem SortedByKey.ext {points points' : List (κ × K)} (h : SortedByKey points)
    (h' : SortedByKey points') (hvalues : ∀ k, valuesAt k points = valuesAt k points') :
    points = points' := by
  have hirrefl : Std.Irrefl fun p q : κ × K => p.1 < q.1 := ⟨fun p => lt_irrefl p.1⟩
  have hasymm : Std.Antisymm fun p q : κ × K => p.1 < q.1 :=
    ⟨fun p q hpq hqp => absurd hqp hpq.asymm⟩
  apply h.eq_of_mem_iff h'
  rintro ⟨k, v⟩
  rw [← mem_valuesAt, ← mem_valuesAt, hvalues]

variable [Field K]

/-- The mean of each group, sorted by key. -/
def averaged (points : List (κ × K)) : List (κ × K) :=
  ((groupByKey points).entries.map fun g => (g.1, g.2.sum / (g.2.length : K))).insertionSort
    fun p q => p.1 ≤ q.1

theorem nodup_keys_averaged (points : List (κ × K)) :
    ((averaged points).map Prod.fst).Nodup := by
  have hkeys : ((averaged points).map Prod.fst).Perm (groupByKey points).keys := by
    apply ((List.perm_insertionSort _ _).map Prod.fst).trans
    rw [List.map_map]
    rfl
  exact hkeys.nodup_iff.mpr (groupByKey points).keys_nodup

theorem sortedByKey_averaged (points : List (κ × K)) : SortedByKey (averaged points) := by
  have htotal : Std.Total fun p q : κ × K => p.1 ≤ q.1 := ⟨fun p q => le_total p.1 q.1⟩
  have htrans : IsTrans (κ × K) fun p q => p.1 ≤ q.1 := ⟨fun _ _ _ => le_trans⟩
  have hle : (averaged points).Pairwise fun p q => p.1 ≤ q.1 := List.pairwise_insertionSort _ _
  have hne : (averaged points).Pairwise fun p q => p.1 ≠ q.1 :=
    List.pairwise_map.mp (nodup_keys_averaged points)
  exact hle.imp₂ (fun _ _ => lt_of_le_of_ne) hne

theorem mem_averaged {points : List (κ × K)} {k : κ} {v : K} :
    (k, v) ∈ averaged points ↔ mean? (valuesAt k points) = some v := by
  have hgroup : ∀ values : List K, ⟨k, values⟩ ∈ (groupByKey points).entries ↔
      valuesAt k points ≠ [] ∧ valuesAt k points = values := by
    intro values
    rw [← AList.mem_lookup_iff, lookup_groupByKey]
    split <;> simp_all
  rw [averaged, List.mem_insertionSort, List.mem_map]
  constructor
  · rintro ⟨⟨k', values⟩, hmem, heq⟩
    obtain ⟨hk, hv⟩ := Prod.mk.inj heq
    simp only at hk hv
    subst hk
    obtain ⟨hne, hvalues⟩ := (hgroup values).mp hmem
    rw [mean?_eq_some hne, hvalues, hv]
  · intro h
    have hne : valuesAt k points ≠ [] := by
      intro hnil
      simp [hnil] at h
    rw [mean?_eq_some hne] at h
    exact ⟨⟨k, valuesAt k points⟩, (hgroup _).mpr ⟨hne, rfl⟩, by simpa using h⟩

theorem averaged_ne_nil {points : List (κ × K)} (h : points ≠ []) : averaged points ≠ [] := by
  obtain ⟨⟨k, v⟩, hmem⟩ := List.exists_mem_of_ne_nil points h
  have hne : valuesAt k points ≠ [] := List.ne_nil_of_mem (mem_valuesAt.mpr hmem)
  exact List.ne_nil_of_mem (mem_averaged.mpr (mean?_eq_some hne))

/-- At each key there is the mean of the values that were there. -/
theorem valuesAt_averaged (k : κ) (points : List (κ × K)) :
    valuesAt k (averaged points) = (mean? (valuesAt k points)).toList := by
  have hmem : ∀ v, v ∈ valuesAt k (averaged points) ↔ mean? (valuesAt k points) = some v := by
    intro v
    rw [mem_valuesAt, mem_averaged]
  have hlength := length_valuesAt_le (nodup_keys_averaged points) k
  match hvalues : valuesAt k (averaged points), hlength with
  | [], _ =>
    have hnone : mean? (valuesAt k points) = none := by
      apply Option.eq_none_iff_forall_ne_some.mpr
      intro v hv
      simpa [hvalues] using (hmem v).mpr hv
    simp [hnone]
  | [v], _ =>
    have hsome : mean? (valuesAt k points) = some v := (hmem v).mp (by simp [hvalues])
    simp [hsome]

end Averaged

end VAttention.Lib
