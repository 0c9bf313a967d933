import Mathlib.Tactic.Push
import VAttention.Lib.Checks

/-!
# Guarded runs

States reached by executing events one after another, where every event executed satisfies a
condition on the state it starts from.  With the trivial guard these are all reachable
states.
-/

namespace VAttention.Lib

variable {σ α ε : Type}

/-- `s` is reached from an initial state by events that succeed and meet the guard. -/
inductive Reaches (exec : α → σ → Except ε σ) (init : σ → Prop) (guard : σ → α → Prop) :
    σ → Prop where
  | init {s : σ} (h : init s) : Reaches exec init guard s
  | next {s s' : σ} {a : α} (hs : Reaches exec init guard s) (hguard : guard s a)
      (hexec : exec a s = .ok s') : Reaches exec init guard s'

variable {exec : α → σ → Except ε σ} {init : σ → Prop} {guard : σ → α → Prop}

/-- Rule of invariants: what holds initially and is kept by every guarded event holds in
    every state reached. -/
theorem Reaches.invariant (I : σ → Prop) (hinit : ∀ s, init s → I s)
    (hnext : ∀ s a s', I s → guard s a → exec a s = .ok s' → I s') {s : σ}
    (h : Reaches exec init guard s) : I s := by
  induction h with
  | init hs => exact hinit _ hs
  | next _ hguard hexec ih => exact hnext _ _ _ ih hguard hexec

/-- Whether all events of a list meet a decidable guard when they are executed in order. -/
def checkGuards (exec : α → σ → Except ε σ) (guard : σ → α → Bool) : List α → σ → Bool
  | [], _ => true
  | a :: events, s =>
    guard s a &&
      match exec a s with
      | .ok s' => checkGuards exec guard events s'
      | .error _ => true

theorem checkGuards_true (exec : α → σ → Except ε σ) (events : List α) (s : σ) :
    checkGuards exec (fun _ _ => true) events s = true := by
  induction events generalizing s with
  | nil => rfl
  | cons a events ih =>
    rw [checkGuards, Bool.true_and]
    split
    · exact ih _
    · rfl

/-- Executing a list of events whose guards have been checked. -/
theorem Reaches.foldlM {check : σ → α → Bool} (hcheck : ∀ s a, check s a = true → guard s a)
    {events : List α} {s s' : σ} (hs : Reaches exec init guard s)
    (hguards : checkGuards exec check events s = true)
    (hrun : events.foldlM (fun s a => exec a s) s = .ok s') : Reaches exec init guard s' := by
  induction events generalizing s with
  | nil =>
    cases hrun
    exact hs
  | cons a events ih =>
    obtain ⟨s₁, hexec, hrest⟩ := seq_eq_ok.mp hrun
    dsimp only at hexec
    rw [checkGuards, hexec, Bool.and_eq_true] at hguards
    exact ih (.next hs (hcheck s a hguards.1) hexec) hguards.2 hrest

/-- An event of a run that does not meet its guard, with the runs before and after it. -/
theorem exists_of_checkGuards_eq_false {check : σ → α → Bool} {events : List α} {s s' : σ}
    (hrun : events.foldlM (fun s a => exec a s) s = .ok s')
    (h : checkGuards exec check events s = false) :
    ∃ (before : List α) (a : α) (after : List α) (s₁ s₂ : σ),
      before.foldlM (fun s a => exec a s) s = .ok s₁ ∧ check s₁ a = false ∧ exec a s₁ = .ok s₂ ∧
      after.foldlM (fun s a => exec a s) s₂ = .ok s' := by
  induction events generalizing s with
  | nil => cases h
  | cons a events ih =>
    obtain ⟨s₂, hexec, hrest⟩ := seq_eq_ok.mp hrun
    dsimp only at hexec
    rw [checkGuards, hexec, Bool.and_eq_false_iff] at h
    rcases h with hnow | hlater
    · exact ⟨[], a, events, s, s₂, rfl, hnow, hexec, hrest⟩
    · obtain ⟨before, b, after, s₁, s₃, hbefore, hcheck, hb, hafter⟩ := ih hrest hlater
      exact ⟨a :: before, b, after, s₁, s₃, seq_eq_ok.mpr ⟨s₂, hexec, hbefore⟩, hcheck, hb, hafter⟩

section Measure

variable {measure : σ → Nat} (hdec : ∀ a s s', exec a s = .ok s' → measure s' < measure s)

include hdec

/-- A run is no longer than a measure that every event lowers. -/
theorem length_add_measure_le {events : List α} {s s' : σ}
    (hrun : events.foldlM (fun s a => exec a s) s = .ok s') :
    events.length + measure s' ≤ measure s := by
  induction events generalizing s with
  | nil =>
    cases hrun
    simp
  | cons a events ih =>
    obtain ⟨s₁, hexec, hrest⟩ := seq_eq_ok.mp hrun
    have hlower := hdec a s s₁ hexec
    have hrun' := ih hrest
    rw [List.length_cons]
    omega

/-- Every state has a run to one in which no event is possible. -/
theorem exists_maximal_run (s : σ) :
    ∃ (events : List α) (s' : σ), events.foldlM (fun s a => exec a s) s = .ok s' ∧
      ∀ a t, exec a s' ≠ .ok t := by
  induction hm : measure s using Nat.strongRecOn generalizing s with
  | ind m ih =>
    by_cases hstuck : ∀ a t, exec a s ≠ .ok t
    · exact ⟨[], s, rfl, hstuck⟩
    · push Not at hstuck
      obtain ⟨a, s₁, hexec⟩ := hstuck
      obtain ⟨events, s', hrun, hend⟩ := ih (measure s₁) (hm ▸ hdec a s s₁ hexec) s₁ rfl
      exact ⟨a :: events, s', seq_eq_ok.mpr ⟨s₁, hexec, hrun⟩, hend⟩

end Measure

end VAttention.Lib
