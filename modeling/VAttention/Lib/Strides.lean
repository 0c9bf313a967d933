import Mathlib.Data.List.Forall2
import Mathlib.Algebra.BigOperators.Group.List.Basic

/-!
# Contiguous tensors

Position of an element in a tensor whose strides are the contiguous ones of its shape:
each index advances by the product of the dimensions after it.
-/

namespace VAttention.Lib

/-- `index` addresses an element of a tensor of the given shape. -/
def InShape (shape index : List Nat) : Prop := List.Forall₂ (· < ·) index shape

/-- Offset of an element, counted in elements from the start of the tensor. -/
def contiguousOffset : List Nat → List Nat → Nat
  | _ :: shape, i :: index => i * shape.prod + contiguousOffset shape index
  | _, _ => 0

theorem contiguousOffset_cons (d : Nat) (shape : List Nat) (i : Nat) (index : List Nat) :
    contiguousOffset (d :: shape) (i :: index) =
      i * shape.prod + contiguousOffset shape index := rfl

theorem contiguousOffset_lt {shape index : List Nat} (h : InShape shape index) :
    contiguousOffset shape index < shape.prod := by
  induction h with
  | nil => simp [contiguousOffset]
  | @cons i d index shape hi _ ih =>
    rw [contiguousOffset_cons, List.prod_cons]
    calc i * shape.prod + contiguousOffset shape index
        < i * shape.prod + shape.prod := Nat.add_lt_add_left ih _
      _ = (i + 1) * shape.prod := (Nat.succ_mul ..).symm
      _ ≤ d * shape.prod := Nat.mul_le_mul_right _ hi

/-- Every offset below the number of elements is the offset of an element. -/
theorem exists_contiguousOffset_eq {shape : List Nat} {n : Nat} (hn : n < shape.prod) :
    ∃ index, InShape shape index ∧ contiguousOffset shape index = n := by
  induction shape generalizing n with
  | nil =>
    refine ⟨[], .nil, ?_⟩
    rw [List.prod_nil] at hn
    simp only [contiguousOffset]
    omega
  | cons d shape ih =>
    rw [List.prod_cons] at hn
    have hpos : 0 < shape.prod := Nat.pos_of_ne_zero fun h => by simp [h] at hn
    obtain ⟨index, hin, hoff⟩ := ih (Nat.mod_lt n hpos)
    refine ⟨n / shape.prod :: index, .cons ?_ hin, ?_⟩
    · exact (Nat.div_lt_iff_lt_mul hpos).mpr hn
    · rw [contiguousOffset_cons, hoff, Nat.mul_comm]
      exact Nat.div_add_mod ..

end VAttention.Lib
