import Mathlib.Logic.Relation
import VAttention.Lib.Checks

/-!
# Loops with a step function

A `while` loop is a step function that either leaves the loop or gives the next state.
`iterate` runs it with a bound on the number of turns; `Relation.ReflTransGen` of a relation
that every turn satisfies then covers the whole loop.  `runLoop` tells a loop that was left from
one that is still running, for loops whose termination is in question.
-/

namespace VAttention.Lib

variable {ε σ : Type}

/-- Run `step` at most `fuel` times; `none` leaves the loop. -/
def iterate (step : σ → Except ε (Option σ)) : Nat → σ → Except ε σ
  | 0, s => .ok s
  | fuel + 1, s => do
    match ← step s with
    | none => pure s
    | some s' => iterate step fuel s'

/-- The turns of a loop that returns normally: no turn, a turn that leaves, or a turn that
    goes on. -/
theorem iterate_succ_eq_ok {step : σ → Except ε (Option σ)} {fuel : Nat} {s s' : σ} :
    iterate step (fuel + 1) s = .ok s' ↔
      (step s = .ok none ∧ s' = s) ∨ ∃ t, step s = .ok (some t) ∧ iterate step fuel t = .ok s' := by
  rw [iterate, seq_eq_ok]
  constructor
  · rintro ⟨next, hstep, hrest⟩
    cases next with
    | none =>
      cases hrest
      exact .inl ⟨hstep, rfl⟩
    | some t => exact .inr ⟨t, hstep, hrest⟩
  · rintro (⟨hstep, rfl⟩ | ⟨t, hstep, hrest⟩)
    · exact ⟨none, hstep, rfl⟩
    · exact ⟨some t, hstep, hrest⟩

/-- A loop whose turns satisfy `R` relates its first and last state by finitely many `R`. -/
theorem iterate_reflTransGen {step : σ → Except ε (Option σ)} {R : σ → σ → Prop}
    (hR : ∀ s t, step s = .ok (some t) → R s t) {fuel : Nat} {s s' : σ}
    (hrun : iterate step fuel s = .ok s') : Relation.ReflTransGen R s s' := by
  induction fuel generalizing s with
  | zero =>
    cases hrun
    exact .refl
  | succ fuel ih =>
    rcases iterate_succ_eq_ok.mp hrun with ⟨-, rfl⟩ | ⟨t, hstep, hrest⟩
    · exact .refl
    · exact .head (hR s t hstep) (ih hrest)

/-- A loop whose every turn lowers `measure` by one, and that is left only at 0, ends at 0
    if its bound is the measure. -/
theorem iterate_exhausts {step : σ → Except ε (Option σ)} (measure : σ → Nat)
    (hnext : ∀ s t, step s = .ok (some t) → measure t + 1 = measure s)
    (hleave : ∀ s, step s = .ok none → measure s = 0) {fuel : Nat} {s s' : σ}
    (hfuel : measure s ≤ fuel) (hrun : iterate step fuel s = .ok s') : measure s' = 0 := by
  induction fuel generalizing s with
  | zero =>
    cases hrun
    exact Nat.le_zero.mp hfuel
  | succ fuel ih =>
    rcases iterate_succ_eq_ok.mp hrun with ⟨hstep, rfl⟩ | ⟨t, hstep, hrest⟩
    · exact hleave s' hstep
    · have := hnext s t hstep
      exact ih (by omega) hrest

/-- What every turn keeps, finitely many turns keep. -/
theorem reflTransGen_invariant {R : σ → σ → Prop} (I : σ → Prop)
    (hI : ∀ s t, R s t → I s → I t) {s s' : σ} (h : Relation.ReflTransGen R s s') (hs : I s) :
    I s' := by
  induction h with
  | refl => exact hs
  | tail _ hlast ih => exact hI _ _ hlast ih

/-- What every turn keeps, the loop keeps. -/
theorem iterate_invariant {step : σ → Except ε (Option σ)} (I : σ → Prop)
    (hI : ∀ s t, step s = .ok (some t) → I s → I t) {fuel : Nat} {s s' : σ}
    (hrun : iterate step fuel s = .ok s') (hs : I s) : I s' :=
  reflTransGen_invariant (R := fun s t => step s = .ok (some t)) I hI
    (iterate_reflTransGen (fun _ _ hstep => hstep) hrun) hs

/-! ## Termination -/

/-- Run `step` until it leaves the loop; `none` if it has not within `fuel` turns. -/
def runLoop (step : σ → Except ε (Option σ)) : Nat → σ → Except ε (Option σ)
  | 0, _ => .ok none
  | fuel + 1, s => do
    match ← step s with
    | none => pure (some s)
    | some s' => runLoop step fuel s'

theorem runLoop_leave {step : σ → Except ε (Option σ)} {s : σ} (h : step s = .ok none)
    (fuel : Nat) : runLoop step (fuel + 1) s = .ok (some s) := by
  rw [runLoop, h]
  rfl

theorem runLoop_turn {step : σ → Except ε (Option σ)} {s t : σ} (h : step s = .ok (some t))
    (fuel : Nat) : runLoop step (fuel + 1) s = runLoop step fuel t := by
  rw [runLoop, h]
  rfl

/-- A loop that has been left does not depend on the bound any more. -/
theorem runLoop_mono {step : σ → Except ε (Option σ)} {fuel fuel' : Nat} {s s' : σ}
    (hle : fuel ≤ fuel') (h : runLoop step fuel s = .ok (some s')) :
    runLoop step fuel' s = .ok (some s') := by
  induction fuel generalizing fuel' s with
  | zero => cases h
  | succ fuel ih =>
    obtain ⟨fuel', rfl⟩ : ∃ k, fuel' = k + 1 := ⟨fuel' - 1, by omega⟩
    obtain ⟨next, hstep, hrest⟩ := seq_eq_ok.mp h
    cases next with
    | none =>
      cases hrest
      exact runLoop_leave hstep fuel'
    | some t =>
      rw [runLoop_turn hstep]
      exact ih (by omega) hrest

/-- **Rule of total correctness**: a loop that keeps `I` and lowers `variant` with every turn is
    left after at most `variant` turns, in a state with `I`. -/
theorem runLoop_total {step : σ → Except ε (Option σ)} (I : σ → Prop) (variant : σ → Nat)
    (hstep : ∀ s, I s →
      step s = .ok none ∨ ∃ t, step s = .ok (some t) ∧ I t ∧ variant t < variant s)
    {fuel : Nat} {s : σ} (hfuel : variant s < fuel) (hs : I s) :
    ∃ s', runLoop step fuel s = .ok (some s') ∧ I s' ∧ step s' = .ok none := by
  induction fuel generalizing s with
  | zero => cases hfuel
  | succ fuel ih =>
    rcases hstep s hs with hleave | ⟨t, hturn, ht, hlt⟩
    · exact ⟨s, runLoop_leave hleave fuel, hs, hleave⟩
    · rw [runLoop_turn hturn]
      exact ih (by omega) ht

end VAttention.Lib
