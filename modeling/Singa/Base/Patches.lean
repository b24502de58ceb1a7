import Mathlib.Algebra.BigOperators.Intervals
import Mathlib.Tactic

/-!
# Patches that overlap

`count` patches of `size` places lie on a line, each `stride` places after the
one before. Going through the places of all patches is the same as going through
the places of the line, and at each one through the patches that cover it.
-/

namespace Singa.Patches
set_option autoImplicit false

open Finset

variable {size stride count y p n : ℕ}

/-- The first patch that covers a place, if one does. -/
def first (size stride y : ℕ) : ℕ := if y < size then 0 else (y - size + stride) / stride

/-- The patch behind the last one that covers a place. -/
def last (stride count y : ℕ) : ℕ := min ((y + stride) / stride) count

theorem first_le_iff (pos : 0 < stride) : first size stride y ≤ p ↔ y < p * stride + size := by
  unfold first
  split
  · next small => exact iff_of_true (Nat.zero_le p) (by omega)
  · next large =>
    rw [← Nat.lt_succ_iff, Nat.div_lt_iff_lt_mul pos, Nat.succ_mul]
    omega

theorem lt_last_iff (pos : 0 < stride) : p < last stride count y ↔ p < count ∧ p * stride ≤ y := by
  unfold last
  rw [lt_min_iff, Nat.lt_iff_add_one_le, Nat.le_div_iff_mul_le pos, Nat.succ_mul, and_comm, Nat.add_le_add_iff_right]

/-- The patches from the first to the last one are those that cover the place. -/
theorem mem_covering (pos : 0 < stride) :
    p ∈ Ico (first size stride y) (last stride count y) ↔ p < count ∧ p * stride ≤ y ∧ y < p * stride + size := by
  rw [mem_Ico, first_le_iff pos, lt_last_iff pos]
  tauto

variable {M : Type} [AddCommMonoid M]

/-- Through the places of one patch. -/
theorem sum_patch (inside : p * stride + size ≤ n) (f : ℕ → M) :
    (∑ y ∈ range n, if p * stride ≤ y ∧ y < p * stride + size then f (y - p * stride) else 0) = ∑ i ∈ range size, f i := by
  rw [← sum_filter]
  have places : (range n).filter (fun y => p * stride ≤ y ∧ y < p * stride + size) = Ico (p * stride) (p * stride + size) := by
    ext y
    rw [mem_filter, mem_range, mem_Ico]
    omega
  rw [places, sum_Ico_eq_sum_range, Nat.add_sub_cancel_left]
  refine sum_congr rfl fun i _ => ?_
  rw [Nat.add_sub_cancel_left]

/-- **Places first or patches first**, on a line. -/
theorem sum_covering (pos : 0 < stride) (inside : ∀ p < count, p * stride + size ≤ n) (f : ℕ → ℕ → M) :
    ∑ y ∈ range n, ∑ p ∈ Ico (first size stride y) (last stride count y), f p (y - p * stride) =
      ∑ p ∈ range count, ∑ i ∈ range size, f p i := by
  have covering : ∀ y, ∑ p ∈ Ico (first size stride y) (last stride count y), f p (y - p * stride) =
      ∑ p ∈ range count, if p * stride ≤ y ∧ y < p * stride + size then f p (y - p * stride) else 0 := by
    intro y
    rw [← sum_filter]
    refine sum_congr ?_ fun _ _ => rfl
    ext p
    rw [mem_covering pos, mem_filter, mem_range]
  rw [sum_congr rfl fun y _ => covering y, sum_comm]
  exact sum_congr rfl fun p mem => sum_patch (inside p (mem_range.mp mem)) (f p)

/-- **Places first or patches first**, in an image. -/
theorem sum_covering_image {rows columns height width : ℕ} (pos : 0 < stride)
    (insideRows : ∀ p < rows, p * stride + size ≤ height) (insideColumns : ∀ p < columns, p * stride + size ≤ width)
    (f : ℕ → ℕ → ℕ → ℕ → M) :
    ∑ y ∈ range height, ∑ x ∈ range width,
        ∑ py ∈ Ico (first size stride y) (last stride rows y), ∑ px ∈ Ico (first size stride x) (last stride columns x),
          f py px (y - py * stride) (x - px * stride) =
      ∑ py ∈ range rows, ∑ px ∈ range columns, ∑ i ∈ range size, ∑ j ∈ range size, f py px i j := by
  calc _ = ∑ y ∈ range height, ∑ py ∈ Ico (first size stride y) (last stride rows y), ∑ x ∈ range width,
        ∑ px ∈ Ico (first size stride x) (last stride columns x), f py px (y - py * stride) (x - px * stride) :=
      sum_congr rfl fun y _ => sum_comm
    _ = ∑ y ∈ range height, ∑ py ∈ Ico (first size stride y) (last stride rows y), ∑ px ∈ range columns,
        ∑ j ∈ range size, f py px (y - py * stride) j :=
      sum_congr rfl fun y _ => sum_congr rfl fun py _ => sum_covering pos insideColumns fun px j => f py px (y - py * stride) j
    _ = ∑ py ∈ range rows, ∑ i ∈ range size, ∑ px ∈ range columns, ∑ j ∈ range size, f py px i j :=
      sum_covering pos insideRows fun py i => ∑ px ∈ range columns, ∑ j ∈ range size, f py px i j
    _ = _ := sum_congr rfl fun py _ => sum_comm

end Singa.Patches
