import Mathlib.Algebra.Order.BigOperators.Group.List
import Mathlib.Algebra.Order.Ring.Nat
import Mathlib.Data.List.Perm.Lattice
import Mathlib.Data.List.AList
import Mathlib.Data.List.Nodup

/-!
# Lists and association lists: permutation bookkeeping

Facts used to keep track of what a list holds while one of its parts changes.
-/

namespace VAttention.Lib

variable {ι α : Type}

/-- Replacing the part of one index by `x` followed by the old part puts `x` in front of
    the whole concatenation, up to order. -/
theorem flatMap_perm_append_of_eq_of_ne {l : List ι} {f g : ι → List α} {r : ι} {x : List α}
    (hnd : l.Nodup) (hr : r ∈ l) (hgr : (g r).Perm (x ++ f r))
    (hne : ∀ q ∈ l, q ≠ r → g q = f q) :
    (l.flatMap g).Perm (x ++ l.flatMap f) := by
  induction l with
  | nil => cases hr
  | cons a l ih =>
    obtain ⟨ha, hnd'⟩ := List.nodup_cons.mp hnd
    simp only [List.flatMap_cons]
    rcases List.mem_cons.mp hr with rfl | hr'
    · -- the changed index is the head: the tail is untouched
      have htail : l.flatMap g = l.flatMap f :=
        List.flatMap_congr fun q hq =>
          hne q (List.mem_cons_of_mem _ hq) (fun h => ha (h ▸ hq))
      rw [htail, ← List.append_assoc]
      exact hgr.append_right _
    · have hhead : g a = f a := hne a List.mem_cons_self (fun h => ha (h ▸ hr'))
      have htail := ih hnd' hr' fun q hq => hne q (List.mem_cons_of_mem _ hq)
      rw [hhead]
      calc (f a ++ l.flatMap g).Perm (f a ++ (x ++ l.flatMap f)) := htail.append_left _
        _ = (f a ++ x) ++ l.flatMap f := (List.append_assoc ..).symm
        List.Perm _ ((x ++ f a) ++ l.flatMap f) := List.perm_append_comm.append_right _
        _ = x ++ (f a ++ l.flatMap f) := List.append_assoc ..

/-- Changing the summand of one index changes the sum by the same amount. -/
theorem sum_map_add_eq_of_eq_of_ne {l : List ι} {f g : ι → Nat} {r : ι} {a b : Nat}
    (hnd : l.Nodup) (hr : r ∈ l) (hgr : g r + a = f r + b) (hne : ∀ q ∈ l, q ≠ r → g q = f q) :
    (l.map g).sum + a = (l.map f).sum + b := by
  induction l with
  | nil => cases hr
  | cons x l ih =>
    obtain ⟨hx, hnd'⟩ := List.nodup_cons.mp hnd
    simp only [List.map_cons, List.sum_cons]
    rcases List.mem_cons.mp hr with rfl | hr'
    · have htail : l.map g = l.map f :=
        List.map_congr_left fun q hq =>
          hne q (List.mem_cons_of_mem _ hq) (fun h => hx (h ▸ hq))
      rw [htail]
      omega
    · have hhead : g x = f x := hne x List.mem_cons_self (fun h => hx (h ▸ hr'))
      have htail := ih hnd' hr' fun q hq => hne q (List.mem_cons_of_mem _ hq)
      omega

/-- A sum that is reduced at every turn is the sum reduced at the end. -/
theorem foldl_add_mod {U : Nat} (f : ι → Nat) (l : List ι) {a : Nat} (ha : a < U) :
    l.foldl (fun acc i => (acc + f i) % U) a = (a + (l.map f).sum) % U := by
  induction l generalizing a with
  | nil => exact (Nat.mod_eq_of_lt ha).symm
  | cons i l ih =>
    rw [List.foldl_cons, ih (Nat.mod_lt _ (Nat.zero_lt_of_lt ha)), Nat.mod_add_mod,
      List.map_cons, List.sum_cons, Nat.add_assoc]

section AssocList

variable {κ : Type} [DecidableEq κ] {β : κ → Type}

/-- Inserting one value under a list of keys. -/
theorem lookup_foldl_insert {τ : Type} (key : ι → κ) (a : τ) (l : List ι)
    (m : AList fun _ : κ => τ) (k : κ) :
    (l.foldl (fun m i => m.insert (key i) a) m).lookup k =
      if k ∈ l.map key then some a else m.lookup k := by
  induction l generalizing m with
  | nil => rfl
  | cons i l ih =>
    rw [List.foldl_cons, ih, List.map_cons]
    by_cases hk : k = key i
    · subst hk
      simp
    · simp [hk, AList.lookup_insert_ne hk]

/-- Looking up and erasing a key splits off its entry. -/
theorem exists_lookup_perm_cons_erase (m : AList β) {k : κ} (hk : k ∈ m) :
    ∃ b, m.lookup k = some b ∧ m.entries.Perm (⟨k, b⟩ :: (m.erase k).entries) := by
  obtain ⟨b, l₁, l₂, -, hsplit, herase⟩ := List.exists_of_kerase (AList.mem_keys.mp hk)
  refine ⟨b, AList.mem_lookup_iff.mpr ?_, ?_⟩
  · rw [hsplit]
    exact List.mem_append_right _ List.mem_cons_self
  · show m.entries.Perm (⟨k, b⟩ :: List.kerase k m.entries)
    rw [herase, hsplit]
    exact List.perm_middle

end AssocList

/-- Two elements can be moved to the end. -/
theorem exists_perm_append_pair {α : Type} {l : List α} {a b : α} (ha : a ∈ l) (hb : b ∈ l)
    (hne : b ≠ a) : ∃ rest, l.Perm (rest ++ [a, b]) := by
  obtain ⟨s, t, rfl⟩ := List.append_of_mem ha
  have hb' : b ∈ s ++ t := by
    simpa [hne] using hb
  obtain ⟨s', t', hst⟩ := List.append_of_mem hb'
  refine ⟨s' ++ t', ?_⟩
  calc (s ++ a :: t).Perm (a :: (s ++ t)) := List.perm_middle
    _ = a :: (s' ++ b :: t') := by rw [hst]
    List.Perm _ (a :: b :: (s' ++ t')) := List.perm_middle.cons a
    List.Perm _ (s' ++ t' ++ [a, b]) := @List.perm_append_comm _ [a, b] (s' ++ t')

/-- A non-empty list is its initial part followed by its last element. -/
theorem cons_eq_dropLast_append {α : Type} (a : α) (l : List α) :
    (a :: l).dropLast ++ [l.getLastD a] = a :: l := by
  rcases List.eq_nil_or_concat l with rfl | ⟨front, last, rfl⟩
  · rfl
  · rw [List.concat_eq_append, ← List.cons_append, List.dropLast_concat, List.getLastD_concat]

/-- In a list in which the selected elements come first, selecting keeps the order. -/
theorem filter_append_filter_not {α : Type} {p : α → Bool} {l : List α}
    (h : l.Pairwise fun a b => p b = true → p a = true) :
    l.filter p ++ l.filter (fun a => !p a) = l := by
  induction l with
  | nil => rfl
  | cons a l ih =>
    obtain ⟨hfst, hrest⟩ := List.pairwise_cons.mp h
    by_cases ha : p a = true
    · rw [List.filter_cons_of_pos ha, List.filter_cons_of_neg (by simp [ha]), List.cons_append,
        ih hrest]
    · -- nothing that follows is selected
      have hnone : l.filter p = [] := by
        rw [List.filter_eq_nil_iff]
        exact fun b hb hpb => ha (hfst b hb hpb)
      have hall : l.filter (fun a => !p a) = l := by
        rw [List.filter_eq_self]
        exact fun b hb => by simpa using fun hpb => ha (hfst b hb hpb)
      rw [List.filter_cons_of_neg ha, List.filter_cons_of_pos (by simp [ha]), hnone, hall]
      rfl

/-- A sum over some members of a list is at most the sum over the list. -/
theorem sum_map_le_of_subset {l l' : List ι} (g : ι → Nat) (hnd : l.Nodup)
    (hsub : ∀ a ∈ l, a ∈ l') : (l.map g).sum ≤ (l'.map g).sum := by
  obtain ⟨l₀, hperm, hsublist⟩ := List.subperm_of_subset hnd hsub
  rw [← (hperm.map g).sum_eq]
  exact (hsublist.map g).sum_le_sum fun _ _ => Nat.zero_le _

/-- Replacing one item changes a count by what the old and the new item count for. -/
theorem countP_set_add {p : α → Bool} {l : List α} {i : Nat} {a b : α} (h : l[i]? = some a) :
    (l.set i b).countP p + (p a).toNat = l.countP p + (p b).toNat := by
  induction l generalizing i with
  | nil => simp at h
  | cons x l ih =>
    cases i with
    | zero =>
      simp only [List.getElem?_cons_zero, Option.some.injEq] at h
      subst h
      simp only [List.set_cons_zero, List.countP_cons]
      cases p x <;> cases p b <;> simp
    | succ i =>
      have hrest := ih (i := i) (by simpa using h)
      simp only [List.set_cons_succ, List.countP_cons]
      omega

/-- Replacing one item changes a sum by what the old and the new item contribute. -/
theorem sum_map_set_add {f : α → Nat} {l : List α} {i : Nat} {a b : α} (h : l[i]? = some a) :
    ((l.set i b).map f).sum + f a = (l.map f).sum + f b := by
  induction l generalizing i with
  | nil => simp at h
  | cons x l ih =>
    cases i with
    | zero =>
      simp only [List.getElem?_cons_zero, Option.some.injEq] at h
      subst h
      simp only [List.set_cons_zero, List.map_cons, List.sum_cons]
      omega
    | succ i =>
      have hrest := ih (i := i) (by simpa using h)
      simp only [List.set_cons_succ, List.map_cons, List.sum_cons]
      omega

end VAttention.Lib
