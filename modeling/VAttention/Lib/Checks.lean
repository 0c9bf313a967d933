import Mathlib.Logic.Basic

/-!
# Computations in `Except`

Inversion lemmas for code that raises: a sequence of statements returns normally exactly
when each of them does, and a check returns normally exactly when its condition is false.
-/

namespace VAttention.Lib

universe u

variable {ε : Type} {α β σ : Type u}

/-- A sequence returns normally only through its first part. -/
theorem seq_eq_ok {x : Except ε α} {f : α → Except ε β} {b : β} :
    (x >>= f) = .ok b ↔ ∃ a, x = .ok a ∧ f a = .ok b := by
  cases x with
  | error e => simp [Bind.bind, Except.bind]
  | ok a => simp [Bind.bind, Except.bind]

/-- A mapped computation returns normally only if the computation does. -/
theorem map_eq_ok {x : Except ε α} {f : α → β} {b : β} :
    x.map f = .ok b ↔ ∃ a, x = .ok a ∧ f a = b := by
  cases x with
  | error e => simp [Except.map]
  | ok a => simp [Except.map]

/-- `if cond: raise error`. -/
def raiseIf (cond : Bool) (error : ε) : Except ε Unit :=
  if cond then .error error else .ok ()

/-- `assert cond`. -/
def assertThat (cond : Bool) (error : ε) : Except ε Unit :=
  if cond then .ok () else .error error

@[simp] theorem raiseIf_eq_ok {cond : Bool} {error : ε} {u : Unit} :
    raiseIf cond error = .ok u ↔ cond = false := by
  cases cond <;> simp [raiseIf]

@[simp] theorem assertThat_eq_ok {cond : Bool} {error : ε} {u : Unit} :
    assertThat cond error = .ok u ↔ cond = true := by
  cases cond <;> simp [assertThat]

/-- A loop of checks returns normally only if each check does. -/
theorem forM_ok_of_mem {α : Type} {f : α → Except ε Unit} {l : List α} {u : Unit}
    (h : l.forM f = .ok u) : ∀ a ∈ l, f a = .ok () := by
  induction l with
  | nil => simp
  | cons a l ih =>
    obtain ⟨⟨⟩, hfst, hrest⟩ := seq_eq_ok.mp h
    intro b hb
    rcases List.mem_cons.mp hb with rfl | hb
    · exact hfst
    · exact ih hrest b hb

/-- A loop that collects results returns normally only if each result comes from an item. -/
theorem exists_mem_of_mapM_ok {α β : Type} {f : α → Except ε β} {l : List α} {l' : List β}
    (h : l.mapM f = .ok l') : ∀ b ∈ l', ∃ a ∈ l, f a = .ok b := by
  induction l generalizing l' with
  | nil =>
    cases h
    simp
  | cons a l ih =>
    rw [List.mapM_cons] at h
    obtain ⟨b, hfst, h⟩ := seq_eq_ok.mp h
    obtain ⟨bs, hrest, h⟩ := seq_eq_ok.mp h
    cases h
    intro b' hb'
    rcases List.mem_cons.mp hb' with rfl | hb'
    · exact ⟨a, List.mem_cons_self, hfst⟩
    · obtain ⟨a', ha', hok⟩ := ih hrest b' hb'
      exact ⟨a', List.mem_cons_of_mem a ha', hok⟩

/-- A loop that collects results collects one for each item. -/
theorem length_of_mapM_ok {α β : Type} {f : α → Except ε β} {l : List α} {l' : List β}
    (h : l.mapM f = .ok l') : l'.length = l.length := by
  induction l generalizing l' with
  | nil =>
    cases h
    rfl
  | cons a l ih =>
    rw [List.mapM_cons] at h
    obtain ⟨b, -, h⟩ := seq_eq_ok.mp h
    obtain ⟨bs, hrest, h⟩ := seq_eq_ok.mp h
    cases h
    rw [List.length_cons, List.length_cons, ih hrest]

/-- The results of a loop stand at the places of the items. -/
theorem getElem?_of_mapM_ok {α β : Type} {f : α → Except ε β} {l : List α} {l' : List β}
    (h : l.mapM f = .ok l') {i : Nat} {a : α} {b : β} (ha : l[i]? = some a)
    (hb : l'[i]? = some b) : f a = .ok b := by
  induction l generalizing l' i with
  | nil => cases ha
  | cons x l ih =>
    rw [List.mapM_cons] at h
    obtain ⟨y, hfst, h⟩ := seq_eq_ok.mp h
    obtain ⟨ys, hrest, h⟩ := seq_eq_ok.mp h
    cases h
    cases i with
    | zero =>
      cases ha
      cases hb
      exact hfst
    | succ i => exact ih hrest ha hb

/-- A loop that collects results depends on what its body does with the items of the list. -/
theorem mapM_congr_of_mem {α β : Type} {f g : α → Except ε β} {l : List α}
    (h : ∀ a ∈ l, f a = g a) : l.mapM f = l.mapM g := by
  induction l with
  | nil => rfl
  | cons a l ih =>
    rw [List.mapM_cons, List.mapM_cons, h a List.mem_cons_self,
      ih fun b hb => h b (List.mem_cons_of_mem a hb)]

/-- Rule of the loop: a fold that returns normally keeps what each iteration keeps.  The
    invariant is indexed by the part of the list that is still to be run. -/
theorem foldlM_ok_induction {f : σ → α → Except ε σ} {I : List α → σ → Prop}
    (hstep : ∀ a l s s', f s a = .ok s' → I (a :: l) s → I l s') (l : List α) (s s' : σ)
    (hrun : l.foldlM f s = .ok s') (hs : I l s) : I [] s' := by
  induction l generalizing s with
  | nil =>
    cases hrun
    exact hs
  | cons a l ih =>
    obtain ⟨s₁, h₁, hrest⟩ := seq_eq_ok.mp hrun
    exact ih s₁ hrest (hstep a l s s₁ h₁ hs)

end VAttention.Lib
