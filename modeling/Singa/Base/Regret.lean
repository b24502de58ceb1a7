import Mathlib

/-!
# Steps against gradients

A point moves against one slope after the other, and each step is divided by a
scale. What the point loses compared with a fixed one is bounded by the scales,
and the scales of all steps so far by the slopes. The bound is an account: the
distance to the fixed point pays for the loss.
-/

namespace Regret
set_option autoImplicit false

open Finset

/-- The account of one step. -/
theorem step_account {x x' g s η u : ℝ} (rate : η ≠ 0) (scale : s ≠ 0) (moved : x' = x - η * g / s) :
    g * (x - u) + s / (2 * η) * (x' - u) ^ 2 = s / (2 * η) * (x - u) ^ 2 + η / 2 * (g ^ 2 / s) := by
  rw [moved]
  field_simp
  ring

/-- Growing scales pay for the squares. -/
theorem sq_div_le {s s' g : ℝ} (pos : 0 < s') (le : s ≤ s') (grown : s' ^ 2 = s ^ 2 + g ^ 2) :
    g ^ 2 / s' ≤ 2 * (s' - s) := by
  rw [div_le_iff₀ pos]
  have square : g ^ 2 = (s' - s) * (s' + s) := by linear_combination -grown
  rw [square]
  have less : (s' - s) * (s' + s) ≤ (s' - s) * (2 * s') := mul_le_mul_of_nonneg_left (by linarith) (by linarith)
  linarith

/-- The scale after `t` steps. -/
noncomputable def scale (δ : ℝ) (g : ℕ → ℝ) (t : ℕ) : ℝ := √(∑ i ∈ range t, g i ^ 2 + δ)

theorem scale_pos {δ : ℝ} (pos : 0 < δ) (g : ℕ → ℝ) (t : ℕ) : 0 < scale δ g t :=
  Real.sqrt_pos.mpr (add_pos_of_nonneg_of_pos (sum_nonneg fun _ _ => sq_nonneg _) pos)

theorem scale_sq {δ : ℝ} (pos : 0 < δ) (g : ℕ → ℝ) (t : ℕ) : scale δ g (t + 1) ^ 2 = scale δ g t ^ 2 + g t ^ 2 := by
  have nonneg : ∀ t, 0 ≤ ∑ i ∈ range t, g i ^ 2 + δ := fun t =>
    add_nonneg (sum_nonneg fun _ _ => sq_nonneg _) pos.le
  rw [scale, scale, Real.sq_sqrt (nonneg _), Real.sq_sqrt (nonneg _), sum_range_succ]
  ring

theorem scale_le {δ : ℝ} (pos : 0 < δ) (g : ℕ → ℝ) (t : ℕ) : scale δ g t ≤ scale δ g (t + 1) := by
  have squares := scale_sq pos g t
  have := sq_nonneg (g t)
  exact le_of_sq_le_sq (by linarith) (scale_pos pos g _).le

/-- **The loss of steps that are divided by the slopes so far**, against a point that is never further away than `D`. -/
theorem adaptive {x g : ℕ → ℝ} {η δ D u : ℝ} (rate : 0 < η) (pos : 0 < δ)
    (moved : ∀ t, x (t + 1) = x t - η * g t / scale δ g (t + 1)) (T : ℕ) (near : ∀ t ≤ T, |x t - u| ≤ D) :
    ∑ t ∈ range T, g t * (x t - u) ≤ (D ^ 2 / (2 * η) + η) * scale δ g T := by
  have near' : ∀ t ≤ T, (x t - u) ^ 2 ≤ D ^ 2 := fun t le => sq_le_sq' (abs_le.mp (near t le)).1 (abs_le.mp (near t le)).2
  -- the distance is still there to pay
  have account : ∀ t ≤ T, ∑ i ∈ range t, g i * (x i - u) + scale δ g t / (2 * η) * (x t - u) ^ 2 ≤
      D ^ 2 / (2 * η) * scale δ g t + η * (scale δ g t - scale δ g 0) := by
    intro t
    induction t with
    | zero =>
      intro le
      have first := mul_le_mul_of_nonneg_left (near' 0 le) (div_nonneg (scale_pos pos g 0).le (by linarith : 0 ≤ 2 * η))
      rw [sum_range_zero, sub_self, mul_zero, zero_add, add_zero]
      linarith [first, (by ring : scale δ g 0 / (2 * η) * D ^ 2 = D ^ 2 / (2 * η) * scale δ g 0)]
    | succ t ih =>
      intro le
      have before := ih (by omega)
      have step := step_account (u := u) rate.ne' (scale_pos pos g (t + 1)).ne' (moved t)
      have squares := sq_div_le (scale_pos pos g (t + 1)) (scale_le pos g t) (scale_sq pos g t)
      have paid := mul_le_mul_of_nonneg_left squares (by linarith : 0 ≤ η / 2)
      have grown := mul_le_mul_of_nonneg_left (near' t (by omega))
        (div_nonneg (sub_nonneg.mpr (scale_le pos g t)) (by linarith : 0 ≤ 2 * η))
      rw [sum_range_succ]
      have split : scale δ g (t + 1) / (2 * η) * (x t - u) ^ 2 = scale δ g t / (2 * η) * (x t - u) ^ 2 +
          (scale δ g (t + 1) - scale δ g t) / (2 * η) * (x t - u) ^ 2 := by ring
      have total : D ^ 2 / (2 * η) * scale δ g (t + 1) = D ^ 2 / (2 * η) * scale δ g t +
          (scale δ g (t + 1) - scale δ g t) / (2 * η) * D ^ 2 := by ring
      linarith
  have last := account T le_rfl
  have left : 0 ≤ scale δ g T / (2 * η) * (x T - u) ^ 2 :=
    mul_nonneg (div_nonneg (scale_pos pos g T).le (by linarith)) (sq_nonneg _)
  have start := mul_nonneg rate.le (scale_pos pos g 0).le
  linarith

end Regret
