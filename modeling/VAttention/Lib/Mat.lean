import Mathlib.Data.Matrix.Basic

/-!
# Matrices that carry their size

A program that loads matrices learns their sizes at run time and branches on them, so the
size is part of the value here.  The operations are transposition, slicing along one of the
two dimensions and concatenation along it; the main fact is that the consecutive slices of a
matrix concatenate to the matrix.
-/

namespace VAttention.Lib

/-- A matrix together with its size. -/
structure Mat (α : Type) where
  rows : Nat
  cols : Nat
  entries : Matrix (Fin rows) (Fin cols) α
deriving DecidableEq

/-- The two dimensions of a matrix. -/
inductive Dim where
  | rows
  | cols
deriving DecidableEq, Repr

namespace Mat

variable {α β : Type}

/-- Two matrices of one size with the same entries are equal. -/
theorem ext_entries {m m' : Mat α} (hrows : m.rows = m'.rows) (hcols : m.cols = m'.cols)
    (h : ∀ i j (hi : i < m.rows) (hj : j < m.cols),
      m.entries ⟨i, hi⟩ ⟨j, hj⟩ = m'.entries ⟨i, hrows ▸ hi⟩ ⟨j, hcols ▸ hj⟩) : m = m' := by
  obtain ⟨rows, cols, entries⟩ := m
  obtain ⟨rows', cols', entries'⟩ := m'
  obtain rfl : rows = rows' := hrows
  obtain rfl : cols = cols' := hcols
  congr 1
  ext i j
  exact h i j i.isLt j.isLt

/-- The size as a tuple. -/
def shape (m : Mat α) : List Nat := [m.rows, m.cols]

/-- The extent along one dimension. -/
def size (m : Mat α) : Dim → Nat
  | .rows => m.rows
  | .cols => m.cols

/-- The transpose. -/
def t (m : Mat α) : Mat α := ⟨m.cols, m.rows, m.entries.transpose⟩

@[simp] theorem rows_t (m : Mat α) : m.t.rows = m.cols := rfl

@[simp] theorem cols_t (m : Mat α) : m.t.cols = m.rows := rfl

@[simp] theorem t_t (m : Mat α) : m.t.t = m := rfl

@[simp] theorem shape_t (m : Mat α) : m.t.shape = [m.cols, m.rows] := rfl

/-- Every entry through a function. -/
def map (f : α → β) (m : Mat α) : Mat β := ⟨m.rows, m.cols, m.entries.map f⟩

/-! ## Slices -/

/-- Rows `start` up to `stop`, cut at the end of the matrix. -/
def sliceRows (start stop : Nat) (m : Mat α) : Mat α where
  rows := min stop m.rows - start
  cols := m.cols
  entries := m.entries.submatrix (fun i => ⟨start + i, by omega⟩) id

/-- The slice from `start` up to `stop` along a dimension; a slice of the columns is the
    slice of the rows of the transpose. -/
def slice (dim : Dim) (start stop : Nat) (m : Mat α) : Mat α :=
  match dim with
  | .rows => m.sliceRows start stop
  | .cols => (m.t.sliceRows start stop).t

theorem sliceRows_full (m : Mat α) : m.sliceRows 0 m.rows = m := by
  refine ext_entries (by simp [sliceRows]) rfl ?_
  intro i j hi hj
  simp [sliceRows]

/-- The slice over the whole extent is the matrix. -/
theorem slice_full (dim : Dim) (m : Mat α) : m.slice dim 0 (m.size dim) = m := by
  cases dim with
  | rows => exact sliceRows_full m
  | cols => exact congrArg t (sliceRows_full m.t)

/-! ## Concatenation -/

/-- The rows of one matrix above those of another of the same width. -/
def catRows (m m' : Mat α) : Option (Mat α) :=
  if h : m.cols = m'.cols then
    some {
      rows := m.rows + m'.rows
      cols := m.cols
      entries := fun i j =>
        if hi : i < m.rows then m.entries ⟨i, hi⟩ j
        else m'.entries ⟨i - m.rows, by omega⟩ (j.cast h) }
  else none

/-- Two matrices side by side along a dimension. -/
def append (dim : Dim) (m m' : Mat α) : Option (Mat α) :=
  match dim with
  | .rows => catRows m m'
  | .cols => (catRows m.t m'.t).map t

/-- A non-empty list of matrices along a dimension, in order. -/
def cat (dim : Dim) : List (Mat α) → Option (Mat α)
  | [] => none
  | m :: ms => ms.foldlM (append dim) m

theorem catRows_sliceRows {m : Mat α} {start mid stop : Nat} (hmid : start ≤ mid)
    (hstop : mid ≤ stop) (hrows : stop ≤ m.rows) :
    catRows (m.sliceRows start mid) (m.sliceRows mid stop) = some (m.sliceRows start stop) := by
  rw [catRows, dif_pos (show (m.sliceRows start mid).cols = (m.sliceRows mid stop).cols from rfl)]
  refine congrArg some (ext_entries ?_ rfl ?_)
  · simp only [sliceRows]
    omega
  · intro i j hi hj
    -- a row of the second slice is `i` rows after `start` as well
    by_cases hfirst : i < (m.sliceRows start mid).rows
    · exact dif_pos hfirst
    · refine (dif_neg hfirst).trans ?_
      have hrow : mid + (i - (m.sliceRows start mid).rows) = start + i := by
        simp only [sliceRows] at hfirst ⊢
        omega
      exact congrArg (fun k => m.entries k ⟨j, hj⟩) (Fin.ext hrow)

/-- Two consecutive slices concatenate to one. -/
theorem append_slice {dim : Dim} {m : Mat α} {start mid stop : Nat} (hmid : start ≤ mid)
    (hstop : mid ≤ stop) (hsize : stop ≤ m.size dim) :
    append dim (m.slice dim start mid) (m.slice dim mid stop) = some (m.slice dim start stop) := by
  cases dim with
  | rows => exact catRows_sliceRows hmid hstop hsize
  | cols =>
    have h := catRows_sliceRows (m := m.t) hmid hstop hsize
    simp only [append, slice, t_t, h, Option.map_some]

/-- One more matrix at the end of the list. -/
theorem cat_concat (dim : Dim) {ms : List (Mat α)} (hms : ms ≠ []) (m : Mat α) :
    cat dim (ms ++ [m]) = (cat dim ms).bind fun whole => append dim whole m := by
  cases ms with
  | nil => exact absurd rfl hms
  | cons head tail =>
    simp only [List.cons_append, cat, List.foldlM_append, List.foldlM_cons, List.foldlM_nil,
      bind_pure]
    rfl

/-- **Consecutive slices of one width concatenate to the slice they cover.** -/
theorem cat_slices {dim : Dim} {m : Mat α} {width n : Nat} (hn : 0 < n)
    (hsize : n * width ≤ m.size dim) :
    cat dim ((List.range n).map fun k => m.slice dim (k * width) (k * width + width)) =
      some (m.slice dim 0 (n * width)) := by
  induction n with
  | zero => exact absurd hn (Nat.lt_irrefl 0)
  | succ n ih =>
    have hstop : n * width + width = (n + 1) * width := (Nat.succ_mul n width).symm
    by_cases hzero : n = 0
    · subst hzero
      simp [cat]
    · have hslices := ih (Nat.pos_of_ne_zero hzero) (by omega)
      have hne :
          (List.range n).map (fun k => m.slice dim (k * width) (k * width + width)) ≠ [] := by
        simpa using hzero
      rw [List.range_succ, List.map_append, List.map_singleton, cat_concat dim hne, hslices,
        Option.bind_some, hstop]
      exact append_slice (Nat.zero_le _) (by omega) hsize

end Mat

end VAttention.Lib
