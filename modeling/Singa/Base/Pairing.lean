import Mathlib.Algebra.BigOperators.Intervals
import Mathlib.Tactic

/-!
# The pairing of two rows of numbers

A row of numbers is read at the places from 0 on. The pairing with a unit row is
an entry, and a pairing over the cells of a grid is taken row by row.
-/

namespace Singa.Pairing
set_option autoImplicit false

open Finset

variable {α : Type} [CommSemiring α] {n : ℕ}

/-- The sum of the products of the first `n` entries. -/
def pairing (n : ℕ) (g d : ℕ → α) : α := ∑ i ∈ range n, g i * d i

theorem pairing_congr {g g' d d' : ℕ → α} (left : ∀ i < n, g i = g' i) (right : ∀ i < n, d i = d' i) :
    pairing n g d = pairing n g' d' := by
  refine sum_congr rfl fun i mem => ?_
  rw [left i (mem_range.mp mem), right i (mem_range.mp mem)]

theorem pairing_zero (g : ℕ → α) : pairing n g (fun _ => 0) = 0 := by
  unfold pairing
  simp

/-- The pairing with a unit row is an entry. -/
theorem pairing_unit (g : ℕ → α) {i : ℕ} (lt : i < n) : pairing n g (fun k => if k = i then 1 else 0) = g i := by
  unfold pairing
  rw [sum_eq_single_of_mem i (mem_range.mpr lt) fun k _ other => by simp [other]]
  simp

/-- A sum over the cells of a grid, row by row. -/
theorem sum_grid {M : Type} [AddCommMonoid M] (rows width : ℕ) (f : ℕ → M) :
    ∑ i ∈ range (rows * width), f i = ∑ y ∈ range rows, ∑ x ∈ range width, f (y * width + x) := by
  induction rows with
  | zero => simp
  | succ rows ih => rw [Nat.succ_mul, sum_range_add, ih, sum_range_succ]

/-- A pairing over the cells of a grid, row by row. -/
theorem pairing_grid (rows width : ℕ) (g d : ℕ → α) :
    pairing (rows * width) g d =
      ∑ y ∈ range rows, pairing width (fun x => g (y * width + x)) (fun x => d (y * width + x)) :=
  sum_grid rows width fun i => g i * d i

end Singa.Pairing
