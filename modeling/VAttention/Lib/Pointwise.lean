import Mathlib.Data.List.Nodup
import VAttention.Lib.Checks

/-!
# Loops that touch one key at a time

A loop over items each of which has a key, whose every turn changes the state only at the
key of its item.  If the keys are distinct, the loop changes each of these keys once and
leaves the rest alone, whatever the order of the items.
-/

namespace VAttention.Lib

variable {α κ τ ε σ : Type}

/-- `v'` arises from `v` by changing the value at the key of each item as `R` says. -/
structure Pointwise (key : α → κ) (l : List α) (R : α → τ → τ → Prop) (v v' : κ → τ) :
    Prop where
  mem : ∀ a ∈ l, R a (v (key a)) (v' (key a))
  frame : ∀ k, k ∉ l.map key → v' k = v k

theorem Pointwise.nil {key : α → κ} {R : α → τ → τ → Prop} (v : κ → τ) :
    Pointwise key [] R v v where
  mem := by simp
  frame _ _ := rfl

/-- One change, followed by changes at other keys. -/
theorem Pointwise.cons {key : α → κ} {R : α → τ → τ → Prop} {v v₁ v' : κ → τ} {a : α}
    {l : List α} (hkey : key a ∉ l.map key) (hfst : R a (v (key a)) (v₁ (key a)))
    (hframe : ∀ k, k ≠ key a → v₁ k = v k) (hrest : Pointwise key l R v₁ v') :
    Pointwise key (a :: l) R v v' where
  mem b hb := by
    rcases List.mem_cons.mp hb with rfl | hb
    · rw [hrest.frame _ hkey]
      exact hfst
    · have hne : key b ≠ key a := fun h => hkey (h ▸ List.mem_map_of_mem hb)
      rw [← hframe _ hne]
      exact hrest.mem b hb
  frame k hk := by
    rw [List.map_cons, List.mem_cons, not_or] at hk
    rw [hrest.frame k hk.2, hframe k hk.1]

/-- Rule of the loop: `view` shows the state by key. -/
theorem Pointwise.of_foldlM {key : α → κ} {R : α → τ → τ → Prop} {f : σ → α → Except ε σ}
    (view : σ → κ → τ)
    (hstep : ∀ a s s', f s a = .ok s' →
      R a (view s (key a)) (view s' (key a)) ∧ ∀ k, k ≠ key a → view s' k = view s k)
    {l : List α} (hnodup : (l.map key).Nodup) {s s' : σ} (hrun : l.foldlM f s = .ok s') :
    Pointwise key l R (view s) (view s') := by
  induction l generalizing s with
  | nil =>
    cases hrun
    exact .nil _
  | cons a l ih =>
    obtain ⟨s₁, hfst, hrest⟩ := seq_eq_ok.mp hrun
    rw [List.map_cons, List.nodup_cons] at hnodup
    obtain ⟨hR, hframe⟩ := hstep a s s₁ hfst
    exact .cons hnodup.1 hR hframe (ih hnodup.2 hrest)

/-- Such a loop raises what one of its turns raises, at a key that no turn has changed before. -/
theorem exists_error_of_foldlM (key : α → κ) {f : σ → α → Except ε σ} (view : σ → κ → τ)
    (hframe : ∀ a s s', f s a = .ok s' → ∀ k, k ≠ key a → view s' k = view s k)
    {l : List α} (hnodup : (l.map key).Nodup) {s : σ} {e : ε} (h : l.foldlM f s = .error e) :
    ∃ done a rest t, l = done ++ a :: rest ∧ done.foldlM f s = .ok t ∧
      view t (key a) = view s (key a) ∧ f t a = .error e := by
  induction l generalizing s with
  | nil => cases h
  | cons a l ih =>
    rw [List.map_cons, List.nodup_cons] at hnodup
    cases hfst : f s a with
    | error e' =>
      rw [List.foldlM_cons, hfst] at h
      cases h
      exact ⟨[], a, l, s, rfl, rfl, rfl, hfst⟩
    | ok s₁ =>
      rw [List.foldlM_cons, hfst] at h
      obtain ⟨done, b, rest, t, rfl, hdone, hview, hraise⟩ := ih hnodup.2 h
      have hne : key b ≠ key a := fun heq => hnodup.1 (by simp [← heq])
      refine ⟨a :: done, b, rest, t, rfl, ?_, hview.trans (hframe a s s₁ hfst _ hne), hraise⟩
      rw [List.foldlM_cons, hfst]
      exact hdone

end VAttention.Lib
