import Mathlib.Dynamics.PeriodicPts.Defs
import Mathlib.Tactic

/-!
# How often an orbit comes to a set

Iterating a function from a point, the orbit comes to the points of a finite set
a bounded number of times exactly if it comes to none of them twice: after the
second time it goes round for ever.
-/

namespace Singa
set_option autoImplicit false

variable {α : Type*} {f : α → α} {x : α} {P : α → Prop} [DecidablePred P]

/-- How many of the first `n` points of the orbit of `x` satisfy `P`. -/
def visits (f : α → α) (x : α) (P : α → Prop) [DecidablePred P] (n : ℕ) : ℕ :=
  ((Finset.range n).filter fun i => P (f^[i] x)).card

theorem visits_succ (n : ℕ) : visits f x P (n + 1) = visits f x P n + if P (f^[n] x) then 1 else 0 := by
  unfold visits
  rw [Finset.range_add_one, Finset.filter_insert]
  split
  · rw [Finset.card_insert_of_notMem (by simp)]
  · rfl

/-- Points that are met once at most are met no more often than there are points. -/
theorem visits_le_card {S : Finset α} (mem : ∀ a, P a → a ∈ S) (once : ∀ i j, P (f^[i] x) → f^[i] x = f^[j] x → i = j)
    (n : ℕ) : visits f x P n ≤ S.card := by
  unfold visits
  apply Finset.card_le_card_of_injOn (fun i => f^[i] x)
  · intro i here
    exact mem _ (Finset.mem_filter.mp here).2
  · intro i here j _ same
    exact once i j (Finset.mem_filter.mp here).2 same

/-- A point that is met twice is met again and again. -/
theorem le_visits_of_repeated {i d : ℕ} (here : P (f^[i] x)) (positive : 0 < d) (again : f^[d] (f^[i] x) = f^[i] x)
    (m : ℕ) : m ≤ visits f x P (i + m * d) := by
  have periodic : Function.IsPeriodicPt f d (f^[i] x) := again
  have times : m = ((Finset.range m).image fun k => k * d + i).card := by
    rw [Finset.card_image_of_injective, Finset.card_range]
    intro k l same
    exact Nat.eq_of_mul_eq_mul_right positive (Nat.add_right_cancel same)
  conv_lhs => rw [times]
  unfold visits
  apply Finset.card_le_card
  intro k mem
  obtain ⟨l, lt, rfl⟩ := Finset.mem_image.mp mem
  have before : (l + 1) * d ≤ m * d := Nat.mul_le_mul_right d (Finset.mem_range.mp lt)
  have point : f^[l * d + i] x = f^[i] x := by
    rw [Function.iterate_add_apply]
    exact periodic.const_mul l
  rw [Finset.mem_filter, Finset.mem_range, point]
  exact ⟨by rw [add_one_mul] at before; omega, here⟩

omit [DecidablePred P] in
/-- Points that differ from all later ones are met once at most. -/
theorem once_of_apart (apart : ∀ i j, i < j → P (f^[i] x) → f^[i] x ≠ f^[j] x) (i j : ℕ) (here : P (f^[i] x))
    (same : f^[i] x = f^[j] x) : i = j := by
  rcases lt_trichotomy i j with lt | eq | gt
  · exact absurd same (apart i j lt here)
  · exact eq
  · exact absurd same.symm (apart j i gt (same ▸ here))

/-- **Points that are met a bounded number of times** are met once at most. -/
theorem once_of_visits_le {bound : ℕ} (le : ∀ n, visits f x P n ≤ bound) (i j : ℕ) (here : P (f^[i] x))
    (same : f^[i] x = f^[j] x) : i = j := by
  refine once_of_apart (fun i j lt here same => ?_) i j here same
  have again : f^[j - i] (f^[i] x) = f^[i] x := by
    rw [← Function.iterate_add_apply, Nat.sub_add_cancel lt.le, same]
  have many := le_visits_of_repeated here (Nat.sub_pos_of_lt lt) again (bound + 1)
  have few := le (i + (bound + 1) * (j - i))
  omega

end Singa
