import VAttention.Lib.Loop

/-!
# Both exits of a computation

`Yields Q E x` says what holds when `x` returns and what holds of the exception when it raises.
The rules follow the program: sequences, branches and loops.
-/

namespace VAttention.Lib

variable {ε : Type} {α β σ : Type} {Q : α → Prop} {R : β → Prop} {E : ε → Prop} {x : Except ε α}

/-- A sequence raises in its first part or in its second. -/
theorem seq_eq_error {f : α → Except ε β} {e : ε} :
    (x >>= f) = .error e ↔ x = .error e ∨ ∃ a, x = .ok a ∧ f a = .error e := by
  cases x with
  | ok a => simp [Bind.bind, Except.bind]
  | error e => simp [Bind.bind, Except.bind]

/-- A check raises its own exception. -/
theorem assertThat_eq_error {cond : Bool} {error e : ε} (h : assertThat cond error = .error e) :
    e = error := by
  cases cond with
  | false => exact (Except.error.inj h).symm
  | true => cases h

/-- `x` returns a result with `Q` or raises an exception with `E`. -/
def Yields (Q : α → Prop) (E : ε → Prop) : Except ε α → Prop
  | .ok a => Q a
  | .error e => E e

theorem Yields.intro (hok : ∀ a, x = .ok a → Q a) (herror : ∀ e, x = .error e → E e) :
    Yields Q E x := by
  cases x with
  | ok a => exact hok a rfl
  | error e => exact herror e rfl

theorem Yields.of_eq_ok (h : Yields Q E x) {a : α} (hx : x = .ok a) : Q a := by
  subst hx
  exact h

theorem Yields.of_eq_error (h : Yields Q E x) {e : ε} (hx : x = .error e) : E e := by
  subst hx
  exact h

/-- Add what is known about the results of `x`. -/
theorem Yields.imp {Q' : α → Prop} (h : Yields Q E x) (hQ : ∀ a, x = .ok a → Q a → Q' a) :
    Yields Q' E x :=
  .intro (fun a hx => hQ a hx (h.of_eq_ok hx)) fun _ hx => h.of_eq_error hx

/-- Rule of sequences. -/
theorem Yields.seq {f : α → Except ε β} (hx : Yields Q E x) (hf : ∀ a, Q a → Yields R E (f a)) :
    Yields R E (x >>= f) := by
  cases x with
  | ok a => exact hf a hx
  | error e => exact hx

/-- Rule of branches. -/
theorem Yields.ite {c : Prop} [Decidable c] {y : Except ε α} (hx : c → Yields Q E x)
    (hy : ¬ c → Yields Q E y) : Yields Q E (if c then x else y) := by
  by_cases h : c
  · rw [if_pos h]
    exact hx h
  · rw [if_neg h]
    exact hy h

/-- Rule of the loop: an invariant that every turn keeps. -/
theorem Yields.iterate {step : σ → Except ε (Option σ)} (I : σ → Prop)
    (hstep : ∀ s, I s → Yields (fun next => ∀ t, next = some t → I t) E (step s)) {s : σ}
    (hs : I s) (fuel : Nat) : Yields I E (iterate step fuel s) := by
  induction fuel generalizing s with
  | zero => exact hs
  | succ fuel ih =>
    refine (hstep s hs).seq fun next hnext => ?_
    cases next with
    | none => exact hs
    | some t => exact ih (hnext t rfl)

/-- A loop that collects results returns normally if each of its turns does.  The part `g'` of the
    results is known in advance. -/
theorem exists_mapM_ok {τ : Type} {f : α → Except ε β} {g : α → τ} {g' : β → τ} {l : List α}
    (h : ∀ a ∈ l, ∃ b, f a = .ok b ∧ g' b = g a) :
    ∃ l', l.mapM f = .ok l' ∧ l'.map g' = l.map g := by
  induction l with
  | nil => exact ⟨[], rfl, rfl⟩
  | cons a l ih =>
    obtain ⟨b, hb, hpart⟩ := h a List.mem_cons_self
    obtain ⟨l', hl', hrest⟩ := ih fun x hx => h x (List.mem_cons_of_mem a hx)
    refine ⟨b :: l', ?_, ?_⟩
    · rw [List.mapM_cons, hb, hl']
      rfl
    · rw [List.map_cons, List.map_cons, hpart, hrest]

/-- A loop that collects results raises what one of its turns raises. -/
theorem exists_mem_of_mapM_error {f : α → Except ε β} {l : List α} {e : ε}
    (h : l.mapM f = .error e) : ∃ a ∈ l, f a = .error e := by
  induction l with
  | nil => cases h
  | cons a l ih =>
    rw [List.mapM_cons] at h
    rcases seq_eq_error.mp h with h | ⟨b, -, h⟩
    · exact ⟨a, List.mem_cons_self, h⟩
    rcases seq_eq_error.mp h with h | ⟨bs, -, h⟩
    · obtain ⟨x, hx, hraise⟩ := ih h
      exact ⟨x, List.mem_cons_of_mem a hx, hraise⟩
    · cases h

end VAttention.Lib
