import Mathlib.Algebra.Order.Floor.Ring
import Mathlib.Algebra.Order.Field.Basic
import Mathlib.Tactic.Linarith
import Mathlib.Tactic.FieldSimp
import Mathlib.Tactic.Positivity

/-!
# Rounding to nearest

Python rounds to the nearest multiple of a power of ten, and ties to the even one.  All that is
used of it is that it does not leave an interval whose lower end is such a multiple.
-/

namespace VAttention.Lib

variable {K : Type} [Field K] [LinearOrder K] [FloorRing K]

/-- The nearest integer, the even one on a tie. -/
def roundHalfEven (x : K) : ℤ :=
  let frac := x - ⌊x⌋
  if frac < 1 / 2 then ⌊x⌋
  else if 1 / 2 < frac then ⌊x⌋ + 1
  else if ⌊x⌋ % 2 = 0 then ⌊x⌋
  else ⌊x⌋ + 1

/-- The nearest multiple of `1 / scale`; `round(x, 2)` has the scale 100. -/
def roundTo (scale : Nat) (x : K) : K := roundHalfEven (x * scale) / scale

/-- It is one of the two neighbours, and the upper one only from the half on. -/
theorem roundHalfEven_cases (x : K) :
    roundHalfEven x = ⌊x⌋ ∨ (roundHalfEven x = ⌊x⌋ + 1 ∧ 1 / 2 ≤ x - ⌊x⌋) := by
  unfold roundHalfEven
  dsimp only
  split_ifs with hlow hhigh heven
  · exact .inl rfl
  · exact .inr ⟨rfl, hhigh.le⟩
  · exact .inl rfl
  · exact .inr ⟨rfl, not_lt.mp hlow⟩

theorem le_roundHalfEven {n : ℤ} {x : K} (h : (n : K) ≤ x) : n ≤ roundHalfEven x := by
  have hfloor : n ≤ ⌊x⌋ := Int.le_floor.mpr h
  rcases roundHalfEven_cases x with heq | ⟨heq, -⟩
  · rwa [heq]
  · rw [heq]
    omega

/-- A multiple of `1 / scale`. -/
def IsMultiple (scale : Nat) (x : K) : Prop := ∃ n : ℤ, x = n / scale

theorem isMultiple_roundTo (scale : Nat) (x : K) : IsMultiple scale (roundTo scale x) :=
  ⟨_, rfl⟩

variable [IsStrictOrderedRing K]

/-- The rounded midpoint of an integer and a number above it is not above that number. -/
theorem roundHalfEven_midpoint_le {n : ℤ} {y : K} (h : (n : K) ≤ y) :
    (roundHalfEven ((n + y) / 2) : K) ≤ y := by
  have hlow : (n : K) ≤ (n + y) / 2 := by linarith
  have hfloor : n ≤ ⌊((n : K) + y) / 2⌋ := Int.le_floor.mpr hlow
  have hfloor' : (n : K) ≤ ⌊((n : K) + y) / 2⌋ := by exact_mod_cast hfloor
  have hle : (⌊((n : K) + y) / 2⌋ : K) ≤ (n + y) / 2 := Int.floor_le _
  rcases roundHalfEven_cases (((n : K) + y) / 2) with heq | ⟨heq, hhalf⟩
  · rw [heq]
    linarith
  · rw [heq, Int.cast_add, Int.cast_one]
    linarith

variable {scale : Nat} {x y : K}

/-- Rounding does not go below a multiple. -/
theorem le_roundTo (hscale : 0 < scale) (hx : IsMultiple scale x) (h : x ≤ y) :
    x ≤ roundTo scale y := by
  have hpos : (0 : K) < scale := by exact_mod_cast hscale
  obtain ⟨n, rfl⟩ := hx
  rw [div_le_iff₀ hpos] at h
  have hround : (n : K) ≤ roundHalfEven (y * scale) := by exact_mod_cast le_roundHalfEven h
  exact div_le_div_of_nonneg_right hround hpos.le

/-- Rounding the midpoint of a multiple and a number above it does not go above that number. -/
theorem roundTo_midpoint_le (hscale : 0 < scale) (hx : IsMultiple scale x) (h : x ≤ y) :
    roundTo scale ((x + y) / 2) ≤ y := by
  have hpos : (0 : K) < scale := by exact_mod_cast hscale
  obtain ⟨n, rfl⟩ := hx
  rw [div_le_iff₀ hpos] at h
  have hmid : ((n : K) / scale + y) / 2 * scale = (n + y * scale) / 2 := by
    field_simp
  rw [roundTo, hmid, div_le_iff₀ hpos]
  exact roundHalfEven_midpoint_le h

end VAttention.Lib
