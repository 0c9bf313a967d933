import Mathlib.Logic.Basic

/-!
# Outcomes of procedures that mutate an object and may throw

A method of a mutable object either returns or throws, and in both cases the object is
left in some state: an exception does not roll back what was done before it.
`Outcome ε σ` records which of the two happened together with that state.

## Contents

- `Outcome.andThen`, `Outcome.map`, `Outcome.forEach`: sequencing, change of state space,
  and the loop over a list of indices that stops at the first exception.
- `Outcome.Ensures`: the two-sided postcondition (normal and exceptional exit), with one
  rule per construct; the loop rule takes an invariant.
-/

namespace VAttention.Lib

/-- How a state-changing procedure ended, with the state it left behind. -/
inductive Outcome (ε σ : Type) where
  /-- Normal return. -/
  | done (s : σ)
  /-- An exception, with the state at the point where it was thrown. -/
  | throw (e : ε) (s : σ)

namespace Outcome

variable {ε σ τ ι : Type}

/-- The state left behind, whichever way the procedure ended. -/
def state : Outcome ε σ → σ
  | .done s => s
  | .throw _ s => s

/-- Run a second procedure unless the first one threw. -/
def andThen (o : Outcome ε σ) (f : σ → Outcome ε σ) : Outcome ε σ :=
  match o with
  | .done s => f s
  | .throw e s => .throw e s

/-- View the state left behind through `f`. -/
def map (f : σ → τ) : Outcome ε σ → Outcome ε τ
  | .done s => .done (f s)
  | .throw e s => .throw e (f s)

/-- Run `body` for each index of the list in turn; an exception ends the loop. -/
def forEach (body : ι → σ → Outcome ε σ) : List ι → σ → Outcome ε σ
  | [], s => .done s
  | i :: is, s => (body i s).andThen (forEach body is)

@[simp] theorem state_done (s : σ) : (Outcome.done s : Outcome ε σ).state = s := rfl

@[simp] theorem state_throw (e : ε) (s : σ) : (Outcome.throw e s).state = s := rfl

@[simp] theorem andThen_done (s : σ) (f : σ → Outcome ε σ) :
    (Outcome.done s).andThen f = f s := rfl

@[simp] theorem andThen_throw (e : ε) (s : σ) (f : σ → Outcome ε σ) :
    (Outcome.throw e s).andThen f = .throw e s := rfl

@[simp] theorem forEach_nil (body : ι → σ → Outcome ε σ) (s : σ) :
    forEach body [] s = .done s := rfl

@[simp] theorem forEach_cons (body : ι → σ → Outcome ε σ) (i : ι) (is : List ι) (s : σ) :
    forEach body (i :: is) s = (body i s).andThen (forEach body is) := rfl

/-! ## Two-sided postconditions -/

/-- `P` holds after a normal return, `E` after an exception. -/
def Ensures (o : Outcome ε σ) (P : σ → Prop) (E : ε → σ → Prop) : Prop :=
  match o with
  | .done s => P s
  | .throw e s => E e s

variable {P Q : σ → Prop} {E : ε → σ → Prop}

@[simp] theorem ensures_done (s : σ) : (Outcome.done s).Ensures P E ↔ P s := Iff.rfl

@[simp] theorem ensures_throw (e : ε) (s : σ) : (Outcome.throw e s).Ensures P E ↔ E e s :=
  Iff.rfl

/-- Rule of consequence for the normal exit. -/
theorem Ensures.mono {o : Outcome ε σ} (h : o.Ensures P E) (hPQ : ∀ s, P s → Q s) :
    o.Ensures Q E := by
  cases o with
  | done s => exact hPQ s h
  | throw e s => exact h

/-- Rule of consequence for the exceptional exit. -/
theorem Ensures.mono_throw {F : ε → σ → Prop} {o : Outcome ε σ} (h : o.Ensures P E)
    (hEF : ∀ e s, E e s → F e s) : o.Ensures P F := by
  cases o with
  | done s => exact h
  | throw e s => exact hEF e s h

/-- Rule of sequencing: the second procedure starts from a state that satisfies the
    first one's normal postcondition. -/
theorem Ensures.andThen {o : Outcome ε σ} {f : σ → Outcome ε σ} (h : o.Ensures P E)
    (hf : ∀ s, P s → (f s).Ensures Q E) : (o.andThen f).Ensures Q E := by
  cases o with
  | done s => exact hf s h
  | throw e s => exact h

/-- Rule for a change of the state space: both exits are seen through `f`. -/
theorem Ensures.map {o : Outcome ε σ} {f : σ → τ} {R : τ → Prop} {F : ε → τ → Prop}
    (h : o.Ensures (fun s => R (f s)) (fun e s => F e (f s))) : (o.map f).Ensures R F := by
  cases o with
  | done s => exact h
  | throw e s => exact h

/-- Rule of the loop: `I` is indexed by the part of the list that is still to be run. -/
theorem Ensures.forEach {body : ι → σ → Outcome ε σ} {I : List ι → σ → Prop}
    (hstep : ∀ i is s, I (i :: is) s → (body i s).Ensures (I is) E) :
    ∀ (l : List ι) (s : σ), I l s → (Outcome.forEach body l s).Ensures (I []) E
  | [], _, hs => hs
  | i :: is, s, hs => (hstep i is s hs).andThen (Ensures.forEach hstep is)

/-- Rule of the loop for an invariant that does not depend on what is still to be run. -/
theorem Ensures.forEach_mem {body : ι → σ → Outcome ε σ} {l : List ι}
    (hstep : ∀ i ∈ l, ∀ s, P s → (body i s).Ensures P E) {s : σ} (hs : P s) :
    (Outcome.forEach body l s).Ensures P E := by
  induction l generalizing s with
  | nil => exact hs
  | cons i is ih =>
    refine (hstep i List.mem_cons_self s hs).andThen fun s' hs' => ?_
    exact ih (fun j hj => hstep j (List.mem_cons_of_mem _ hj)) hs'

end Outcome

end VAttention.Lib
