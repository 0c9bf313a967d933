import VAttention.Lib.Lists

/-!
# Items in tables

A finite map gives every owner a list of items.  The items of all owners together are one list,
up to order, and the lemmas here say how it changes when one table does.  If that list has no
duplicates, no two owners share an item.
-/

namespace VAttention.Lib

variable {ι α : Type} [DecidableEq ι] {tables : AList fun _ : ι => List α} {a b : ι}
  {items others : List α}

/-- The items of all owners. -/
def heldItems (tables : AList fun _ : ι => List α) : List α :=
  tables.entries.flatMap Sigma.snd

theorem heldItems_erase (tables : AList fun _ : ι => List α) (a : ι) :
    heldItems (tables.erase a) = (tables.entries.kerase a).flatMap Sigma.snd := rfl

/-- The items of one owner and those of the others. -/
theorem heldItems_perm_of_lookup (h : tables.lookup a = some items) :
    (heldItems tables).Perm (items ++ heldItems (tables.erase a)) := by
  have hmem : a ∈ tables := by rw [← AList.lookup_isSome, h, Option.isSome_some]
  obtain ⟨items', hlookup, hperm⟩ := exists_lookup_perm_cons_erase tables hmem
  obtain rfl : items' = items := Option.some.inj (hlookup.symm.trans h)
  exact hperm.flatMap_right Sigma.snd

theorem heldItems_insert (tables : AList fun _ : ι => List α) (a : ι) (items : List α) :
    heldItems (tables.insert a items) = items ++ heldItems (tables.erase a) := by
  rw [heldItems_erase, heldItems, AList.entries_insert, List.flatMap_cons]

theorem heldItems_erase_of_notMem (h : a ∉ tables) :
    heldItems (tables.erase a) = heldItems tables := by
  rw [heldItems_erase, List.kerase_of_notMem_keys h, heldItems]

/-- A table that grows. -/
theorem heldItems_insert_append_perm (h : tables.lookup a = some items) (more : List α) :
    (heldItems (tables.insert a (items ++ more))).Perm (more ++ heldItems tables) := by
  have hswap : (items ++ (more ++ heldItems (tables.erase a))).Perm
      (more ++ (items ++ heldItems (tables.erase a))) := by
    simp only [← List.append_assoc]
    exact List.perm_append_comm.append_right _
  rw [heldItems_insert, List.append_assoc]
  exact hswap.trans ((heldItems_perm_of_lookup h).symm.append_left more)

/-- Larger tables hold more items. -/
theorem length_heldItems_le {tables tables' : AList fun _ : ι => List α}
    (h : ∀ a items, tables.lookup a = some items →
      ∃ others, tables'.lookup a = some others ∧ items.length ≤ others.length) :
    (heldItems tables).length ≤ (heldItems tables').length := by
  induction tables using AList.insertRec generalizing tables' with
  | H0 => exact Nat.zero_le _
  | IH a items tables hnew ih =>
    obtain ⟨others, hothers, hle⟩ := h a items (AList.lookup_insert _)
    have hrest : (heldItems tables).length ≤ (heldItems (tables'.erase a)).length := by
      refine ih fun b items hb => ?_
      have hne : b ≠ a := by
        rintro rfl
        rw [AList.lookup_eq_none.mpr hnew] at hb
        cases hb
      rw [AList.lookup_erase_ne hne]
      exact h b items ((AList.lookup_insert_ne hne).trans hb)
    rw [heldItems_insert, heldItems_erase_of_notMem hnew,
      (heldItems_perm_of_lookup hothers).length_eq, List.length_append, List.length_append]
    exact Nat.add_le_add hle hrest

section Nodup

variable (hnodup : (heldItems tables).Nodup)

include hnodup in
theorem nodup_of_lookup (h : tables.lookup a = some items) : items.Nodup :=
  ((heldItems_perm_of_lookup h).nodup_iff.mp hnodup).of_append_left

include hnodup in
/-- Two owners have no item in common. -/
theorem disjoint_of_lookup (hne : a ≠ b) (ha : tables.lookup a = some items)
    (hb : tables.lookup b = some others) : items.Disjoint others := by
  have hrest : (tables.erase a).lookup b = some others := by rw [AList.lookup_erase_ne hne.symm, hb]
  have hdisjoint := List.disjoint_of_nodup_append
    ((heldItems_perm_of_lookup ha).nodup_iff.mp hnodup)
  intro x hx hx'
  apply hdisjoint hx
  rw [(heldItems_perm_of_lookup hrest).mem_iff]
  exact List.mem_append_left _ hx'

end Nodup

end VAttention.Lib
