import Mathlib.Data.Finset.Card
import Mathlib.Data.Finset.Prod
import Mathlib.Data.Fintype.Card
import Mathlib.Logic.Function.Basic
import Mathlib.Logic.Relation

/-!
# Two ticket counters with redirection

Parties draw numbered tickets from one of two counters.  A party chooses a counter, draws,
and if the ticket is past the limit of that counter draws once more, from the other one.
Choosing and drawing are separate steps, and the steps of the parties interleave in any order.

Tickets are never handed out twice (`Desk.Inv.unique`), and when there are at least as many
parties as tickets below the two limits and all parties hold one, every such ticket is held
(`Desk.Inv.all_held`).
-/

namespace VAttention.Lib

/-- Where a party stands. -/
inductive Phase (κ : Type) where
  /-- It has not chosen a counter. -/
  | idle
  /-- It is about to draw from the counter it chose. -/
  | chose (q : κ)
  /-- Its ticket was past the limit, it is about to draw from this counter instead. -/
  | redirected (q : κ)
  /-- It holds ticket `n` of the counter. -/
  | holds (q : κ) (n : Nat)
  deriving DecidableEq, Repr

/-- The next ticket of each counter, and the parties. -/
structure Desk (κ : Type) where
  count : κ → Nat
  parties : List (Phase κ)

namespace Desk

variable {κ : Type}

/-- A party that holds a ticket does not move. -/
theorem holds_mem_set {l : List (Phase κ)} {i : Nat} {p p' : Phase κ} {q : κ} {n : Nat}
    (hi : l[i]? = some p) (hp : p ≠ .holds q n) (h : Phase.holds q n ∈ l) :
    Phase.holds q n ∈ l.set i p' := by
  obtain ⟨j, hj⟩ := List.mem_iff_getElem?.mp h
  have hne : i ≠ j := by
    rintro rfl
    exact hp (Option.some.inj (hi.symm.trans hj))
  exact List.mem_iff_getElem?.mpr ⟨j, by rw [List.getElem?_set_ne hne, hj]⟩

/-- A ticket found after party `i` moved is held by `i`, or was held before by the same party. -/
theorem getElem?_set_holds {l : List (Phase κ)} {i j : Nat} {p : Phase κ} {q : κ} {n : Nat}
    (h : (l.set i p)[j]? = some (.holds q n)) :
    i = j ∧ p = .holds q n ∨ l[j]? = some (.holds q n) := by
  rw [List.getElem?_set] at h
  split at h
  case isTrue hij =>
    split at h
    · exact .inl ⟨hij, Option.some.inj h⟩
    · cases h
  case isFalse => exact .inr h

/-- What holds at every desk reached from one at which nobody has drawn. -/
structure Inv (lim : κ → Nat) (other : κ → κ) (d : Desk κ) : Prop where
  /-- Tickets held have been handed out. -/
  held_lt : ∀ {q n}, Phase.holds q n ∈ d.parties → n < d.count q
  /-- No two parties hold the same ticket. -/
  unique : ∀ {i j : Nat} {q : κ} {n : Nat}, d.parties[i]? = some (.holds q n) →
    d.parties[j]? = some (.holds q n) → i = j
  /-- Tickets below the limit stay with the party that drew them. -/
  covered : ∀ {q n}, n < d.count q → n < lim q → Phase.holds q n ∈ d.parties
  /-- A party is sent away only from a counter that has reached its limit. -/
  exhausted_of_redirected : ∀ {q}, Phase.redirected q ∈ d.parties →
    lim (other q) ≤ d.count (other q)
  /-- A ticket past its limit is held only when the other counter has reached its own. -/
  exhausted_of_late : ∀ {q n}, Phase.holds q n ∈ d.parties → lim q ≤ n →
    lim (other q) ≤ d.count (other q)

variable {lim : κ → Nat} {other : κ → κ} {d d' : Desk κ}

theorem Inv.initial (n : Nat) : Inv lim other ⟨fun _ => 0, List.replicate n .idle⟩ where
  held_lt h := by simp [List.mem_replicate] at h
  unique h := by simp [List.getElem?_replicate] at h
  covered h := absurd h (Nat.not_lt_zero _)
  exhausted_of_redirected h := by simp [List.mem_replicate] at h
  exhausted_of_late h := by simp [List.mem_replicate] at h

/-- A move that hands out no ticket. -/
theorem Inv.of_no_ticket (hd : Inv lim other d) {i : Nat} {p p' : Phase κ} {count : κ → Nat}
    (hi : d.parties[i]? = some p) (hp : ∀ q n, p ≠ .holds q n) (hp' : ∀ q n, p' ≠ .holds q n)
    (hle : ∀ q, d.count q ≤ count q) (hnew : ∀ q n, n < count q → n < lim q → n < d.count q)
    (hred : ∀ q, p' = .redirected q → lim (other q) ≤ count (other q)) :
    Inv lim other ⟨count, d.parties.set i p'⟩ where
  held_lt h := by
    obtain hmem | heq := List.mem_or_eq_of_mem_set h
    · exact lt_of_lt_of_le (hd.held_lt hmem) (hle _)
    · exact absurd heq.symm (hp' _ _)
  unique hj hk := by
    obtain ⟨-, h⟩ | hj := getElem?_set_holds hj
    · exact absurd h (hp' _ _)
    obtain ⟨-, h⟩ | hk := getElem?_set_holds hk
    · exact absurd h (hp' _ _)
    exact hd.unique hj hk
  covered hn hlim := holds_mem_set hi (hp _ _) (hd.covered (hnew _ _ hn hlim) hlim)
  exhausted_of_redirected h := by
    obtain hmem | heq := List.mem_or_eq_of_mem_set h
    · exact (hd.exhausted_of_redirected hmem).trans (hle _)
    · exact hred _ heq.symm
  exhausted_of_late h hlate := by
    obtain hmem | heq := List.mem_or_eq_of_mem_set h
    · exact (hd.exhausted_of_late hmem hlate).trans (hle _)
    · exact absurd heq.symm (hp' _ _)

variable [DecidableEq κ]

/-- Drawing advances one counter. -/
def advance (count : κ → Nat) (q : κ) : κ → Nat := Function.update count q (count q + 1)

theorem le_advance (count : κ → Nat) (q r : κ) : count r ≤ advance count q r := by
  rcases eq_or_ne r q with rfl | hne
  · simp [advance]
  · simp [advance, Function.update_of_ne hne]

theorem lt_advance_self (count : κ → Nat) (q : κ) : count q < advance count q q := by
  simp [advance]

/-- What is below an advanced counter was below it before, or is the ticket just drawn. -/
theorem lt_advance {count : κ → Nat} {q r : κ} {n : Nat} (h : n < advance count q r) :
    n < count r ∨ r = q ∧ n = count q := by
  rcases eq_or_ne r q with rfl | hne
  · rw [advance, Function.update_self] at h
    exact (Nat.lt_succ_iff_lt_or_eq.mp h).imp_right fun heq => ⟨rfl, heq⟩
  · rw [advance, Function.update_of_ne hne] at h
    exact .inl h

/-- One step of one party. -/
inductive Step (lim : κ → Nat) (other : κ → κ) : Desk κ → Desk κ → Prop where
  | choose {d : Desk κ} {i : Nat} (h : d.parties[i]? = some .idle) (q : κ) :
      Step lim other d { d with parties := d.parties.set i (.chose q) }
  | draw {d : Desk κ} {i : Nat} {q : κ} (h : d.parties[i]? = some (.chose q))
      (hlt : d.count q < lim q) :
      Step lim other d ⟨advance d.count q, d.parties.set i (.holds q (d.count q))⟩
  | overflow {d : Desk κ} {i : Nat} {q : κ} (h : d.parties[i]? = some (.chose q))
      (hge : lim q ≤ d.count q) :
      Step lim other d ⟨advance d.count q, d.parties.set i (.redirected (other q))⟩
  | redraw {d : Desk κ} {i : Nat} {q : κ} (h : d.parties[i]? = some (.redirected q)) :
      Step lim other d ⟨advance d.count q, d.parties.set i (.holds q (d.count q))⟩

/-- Party `i` is handed the next ticket of counter `q`. -/
theorem Inv.of_ticket (hd : Inv lim other d) {i : Nat} {p : Phase κ} {q : κ}
    (hi : d.parties[i]? = some p) (hp : ∀ q n, p ≠ .holds q n)
    (hlate : lim q ≤ d.count q → lim (other q) ≤ d.count (other q)) :
    Inv lim other ⟨advance d.count q, d.parties.set i (.holds q (d.count q))⟩ where
  held_lt h := by
    obtain hmem | heq := List.mem_or_eq_of_mem_set h
    · exact lt_of_lt_of_le (hd.held_lt hmem) (le_advance _ _ _)
    · cases heq
      exact lt_advance_self _ _
  unique hj hk := by
    -- A ticket held before the move has a number below the counter, so it is not the new one.
    have hold : ∀ {j : Nat}, d.parties[j]? ≠ some (.holds q (d.count q)) := fun h =>
      absurd (hd.held_lt (List.mem_of_getElem? h)) (lt_irrefl _)
    obtain ⟨rfl, h⟩ | hj := getElem?_set_holds hj
    · obtain ⟨rfl, -⟩ | hk := getElem?_set_holds hk
      · rfl
      · exact absurd (h ▸ hk) hold
    · obtain ⟨rfl, h⟩ | hk := getElem?_set_holds hk
      · exact absurd (h ▸ hj) hold
      · exact hd.unique hj hk
  covered hn hlim := by
    obtain hn | ⟨rfl, rfl⟩ := lt_advance hn
    · exact holds_mem_set hi (hp _ _) (hd.covered hn hlim)
    · exact List.mem_iff_getElem?.mpr
        ⟨i, List.getElem?_set_self (List.getElem?_eq_some_iff.mp hi).choose⟩
  exhausted_of_redirected h := by
    obtain hmem | heq := List.mem_or_eq_of_mem_set h
    · exact (hd.exhausted_of_redirected hmem).trans (le_advance _ _ _)
    · cases heq
  exhausted_of_late h hl := by
    obtain hmem | heq := List.mem_or_eq_of_mem_set h
    · exact (hd.exhausted_of_late hmem hl).trans (le_advance _ _ _)
    · cases heq
      exact (hlate hl).trans (le_advance _ _ _)

theorem Inv.step (hother : Function.Involutive other) (hd : Inv lim other d)
    (h : Step lim other d d') : Inv lim other d' := by
  cases h with
  | choose hi q =>
    exact hd.of_no_ticket hi (by simp) (by simp) (fun _ => le_rfl) (fun _ _ hn _ => hn) (by simp)
  | draw hi hlt => exact hd.of_ticket hi (by simp) fun hge => absurd hlt (not_lt.mpr hge)
  | @overflow i q hi hge =>
    refine hd.of_no_ticket hi (by simp) (by simp) (le_advance _ _) ?_ ?_
    · intro r n hn hlim
      obtain hn | ⟨rfl, rfl⟩ := lt_advance hn
      · exact hn
      · exact absurd hlim (not_lt.mpr hge)
    · intro r hr
      cases hr
      rw [hother q]
      exact hge.trans (le_advance _ _ _)
  | redraw hi =>
    exact hd.of_ticket hi (by simp) fun _ =>
      hd.exhausted_of_redirected (List.mem_of_getElem? hi)

/-- With enough parties, and all of them holding a ticket, every counter has reached its limit:
    the holders of `q` are fewer than `lim q` otherwise, and nobody was sent to `other q`. -/
theorem Inv.exhausted (hother : Function.Involutive other)
    (htwo : ∀ q r : κ, r = q ∨ r = other q) (hd : Inv lim other d)
    (hall : ∀ p ∈ d.parties, ∃ q n, p = .holds q n) (q : κ)
    (henough : lim q + lim (other q) ≤ d.parties.length) : lim q ≤ d.count q := by
  by_contra hlt
  rw [not_le] at hlt
  have hheld : ∀ i : Fin d.parties.length, ∃ t : κ × Nat, d.parties[i] = .holds t.1 t.2 := by
    intro i
    obtain ⟨r, n, h⟩ := hall _ (List.getElem_mem i.isLt)
    exact ⟨(r, n), h⟩
  choose ticket hticket using hheld
  have hinj : Function.Injective ticket := by
    intro i j hij
    have hi := List.getElem?_eq_some_iff.mpr ⟨i.isLt, hticket i⟩
    have hj := List.getElem?_eq_some_iff.mpr ⟨j.isLt, hticket j⟩
    rw [← hij] at hj
    exact Fin.ext (hd.unique hi hj)
  have hrange : ∀ i, ticket i ∈ ({q} : Finset κ) ×ˢ Finset.range (d.count q) ∪
      ({other q} : Finset κ) ×ˢ Finset.range (lim (other q)) := by
    intro i
    have hmem : .holds (ticket i).1 (ticket i).2 ∈ d.parties :=
      hticket i ▸ List.getElem_mem i.isLt
    simp only [Finset.mem_union, Finset.mem_product, Finset.mem_singleton, Finset.mem_range]
    rcases htwo q (ticket i).1 with hq | hq
    · exact .inl ⟨hq, hq ▸ hd.held_lt hmem⟩
    · refine .inr ⟨hq, ?_⟩
      by_contra hge
      rw [hq] at hmem
      have hfull := hd.exhausted_of_late hmem (not_lt.mp hge)
      rw [hother q] at hfull
      exact absurd hlt (not_lt.mpr hfull)
  have hcard := Finset.card_le_card_of_injOn (s := Finset.univ) ticket
    (fun i _ => hrange i) hinj.injOn
  have hunion := Finset.card_union_le (({q} : Finset κ) ×ˢ Finset.range (d.count q))
    (({other q} : Finset κ) ×ˢ Finset.range (lim (other q)))
  simp only [Finset.card_univ, Fintype.card_fin, Finset.card_product, Finset.card_singleton,
    Finset.card_range, one_mul] at hcard hunion
  omega

/-- Then every ticket below a limit is held. -/
theorem Inv.all_held (hother : Function.Involutive other)
    (htwo : ∀ q r : κ, r = q ∨ r = other q) (hd : Inv lim other d)
    (hall : ∀ p ∈ d.parties, ∃ q n, p = .holds q n) {q : κ} {n : Nat}
    (henough : lim q + lim (other q) ≤ d.parties.length) (hn : n < lim q) :
    .holds q n ∈ d.parties :=
  hd.covered (lt_of_lt_of_le hn (hd.exhausted hother htwo hall q henough)) hn

end Desk

end VAttention.Lib
