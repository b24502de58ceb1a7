import Mathlib

/-!
# Rows that move

A row of numbers depends on a time, and at one time its entries have velocities.
What is computed from rows that move, moves too. The velocity of one entry with
respect to another one is the partial derivative.
-/

namespace Singa.Velocity
set_option autoImplicit false

open Finset

variable {ι κ : Type} {t : ℝ}

/-- At the time `t` the entries of a row have the velocities `dx`. -/
def Moves (t : ℝ) (x : ℝ → ι → ℝ) (dx : ι → ℝ) : Prop := ∀ i, HasDerivAt (fun s => x s i) (dx i) t

theorem Moves.const (t : ℝ) (x : ι → ℝ) : Moves t (fun _ => x) fun _ => 0 := fun i => hasDerivAt_const t (x i)

/-- An entry of each row. -/
theorem Moves.at {x : ℝ → ι → ℝ} {dx : ι → ℝ} (moves : Moves t x dx) (place : κ → ι) :
    Moves t (fun s k => x s (place k)) fun k => dx (place k) := fun k => moves (place k)

/-- One entry moves with velocity 1, and the others stand still. -/
theorem Moves.one [DecidableEq ι] (x : ι → ℝ) (k : ι) :
    Moves (x k) (fun s => Function.update x k s) fun i => if i = k then 1 else 0 := by
  intro i
  by_cases here : i = k
  · subst here
    simpa using hasDerivAt_id' (x i)
  · simpa [here] using hasDerivAt_const (x k) (x i)

/-- The share of one entry when all are exponentiated. -/
noncomputable def share (entries : Finset ι) (x : ι → ℝ) (i : ι) : ℝ := Real.exp (x i) / ∑ k ∈ entries, Real.exp (x k)

theorem sum_exp_pos {entries : Finset ι} {i : ι} (mem : i ∈ entries) (x : ι → ℝ) : 0 < ∑ k ∈ entries, Real.exp (x k) :=
  sum_pos (fun k _ => Real.exp_pos (x k)) ⟨i, mem⟩

theorem share_congr {entries : Finset ι} {x y : ι → ℝ} {i : ι} (same : ∀ k ∈ entries, x k = y k) (mem : i ∈ entries) :
    share entries x i = share entries y i := by
  unfold share
  rw [same i mem, Finset.sum_congr rfl fun k listed => congrArg Real.exp (same k listed)]

theorem share_pos {entries : Finset ι} {i : ι} (mem : i ∈ entries) (x : ι → ℝ) : 0 < share entries x i :=
  div_pos (Real.exp_pos _) (sum_exp_pos mem x)

/-- All entries moved by the same number have the same shares. -/
theorem share_shift (entries : Finset ι) (x : ι → ℝ) (c : ℝ) (i : ι) : share entries (fun k => x k - c) i = share entries x i := by
  unfold share
  simp only [Real.exp_sub]
  rw [← sum_div, div_div_div_cancel_right₀ (Real.exp_pos c).ne']

/-- A share moves as its entry does, less the mean of all entries by their shares. -/
theorem Moves.share {x : ℝ → ι → ℝ} {dx : ι → ℝ} (moves : Moves t x dx) {entries : Finset ι} {i : ι} (mem : i ∈ entries) :
    HasDerivAt (fun s => share entries (x s) i)
      (share entries (x t) i * (dx i - ∑ k ∈ entries, Velocity.share entries (x t) k * dx k)) t := by
  have pos := (sum_exp_pos mem (x t)).ne'
  refine ((moves i).exp.div (HasDerivAt.fun_sum fun k (_ : k ∈ entries) => (moves k).exp) pos).congr_deriv ?_
  have mean : ∑ k ∈ entries, Velocity.share entries (x t) k * dx k =
      (∑ k ∈ entries, Real.exp (x t k) * dx k) / ∑ k ∈ entries, Real.exp (x t k) := by
    rw [sum_div]
    exact sum_congr rfl fun k _ => div_mul_eq_mul_div _ _ _
  rw [mean, Velocity.share]
  field_simp

theorem Moves.log_share {x : ℝ → ι → ℝ} {dx : ι → ℝ} (moves : Moves t x dx) {entries : Finset ι} {i : ι} (mem : i ∈ entries) :
    HasDerivAt (fun s => Real.log (Velocity.share entries (x s) i))
      (dx i - ∑ k ∈ entries, Velocity.share entries (x t) k * dx k) t := by
  have pos := (share_pos mem (x t)).ne'
  refine ((moves.share mem).log pos).congr_deriv ?_
  field_simp

end Singa.Velocity
