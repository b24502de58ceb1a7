import Singa.Base.Velocity

/-!
# Restricted Boltzmann machines

Every visible unit is connected with every hidden unit, and no two visible or two
hidden units with each other. The energy is linear in the weights and biases, and
in the hidden units, so these can be summed over.
-/

namespace Singa.Boltzmann
set_option autoImplicit false

open Finset

/-- The biases of the visible and of the hidden units, and the weights between them. -/
structure Machine (ι κ : Type) where
  visible : ι → ℝ
  hidden : κ → ℝ
  weight : ι → κ → ℝ

namespace Machine

variable {ι κ : Type} (V : Finset ι) (H : Finset κ) (m : Machine ι κ)

/-- What a hidden unit gets. -/
def field (v : ι → ℝ) (j : κ) : ℝ := ∑ i ∈ V, v i * m.weight i j + m.hidden j

def energy (v : ι → ℝ) (h : κ → ℝ) : ℝ := -(∑ i ∈ V, m.visible i * v i + ∑ j ∈ H, m.field V v j * h j)

/-- The free energy: the hidden units are on or off, and all of that is summed over. -/
noncomputable def freeEnergy [DecidableEq κ] (v : ι → ℝ) : ℝ :=
  -Real.log (∑ s ∈ H.powerset, Real.exp (-m.energy V H v fun j => if j ∈ s then 1 else 0))

/-- Each hidden unit contributes by itself. -/
theorem freeEnergy_eq [DecidableEq κ] (v : ι → ℝ) :
    m.freeEnergy V H v = -(∑ i ∈ V, m.visible i * v i + ∑ j ∈ H, Real.log (1 + Real.exp (m.field V v j))) := by
  have each : ∀ s ∈ H.powerset, Real.exp (-m.energy V H v fun j => if j ∈ s then 1 else 0) =
      Real.exp (∑ i ∈ V, m.visible i * v i) * ∏ j ∈ s, Real.exp (m.field V v j) := by
    intro s mem
    unfold energy
    rw [neg_neg, Real.exp_add, ← Real.exp_sum]
    simp only [mul_ite, mul_one, mul_zero]
    rw [sum_ite_mem, inter_eq_right.mpr (mem_powerset.mp mem)]
  have positive : ∀ j ∈ H, 1 + Real.exp (m.field V v j) ≠ 0 := fun j _ => (add_pos one_pos (Real.exp_pos _)).ne'
  unfold freeEnergy
  rw [sum_congr rfl each, ← mul_sum, ← prod_one_add, Real.log_mul (Real.exp_ne_zero _) (prod_ne_zero_iff.mpr positive), Real.log_exp,
    Real.log_prod positive]

/-- At the time `t` biases and weights have the velocities `dm`. -/
structure Moves (t : ℝ) (m : ℝ → Machine ι κ) (dm : Machine ι κ) : Prop where
  visible : Velocity.Moves t (fun s => (m s).visible) dm.visible
  hidden : Velocity.Moves t (fun s => (m s).hidden) dm.hidden
  weight : ∀ i, Velocity.Moves t (fun s => (m s).weight i) (dm.weight i)

variable {V H} {t : ℝ} {m : ℝ → Machine ι κ} {dm : Machine ι κ}

theorem Moves.field (moves : Moves t m dm) (v : ι → ℝ) (j : κ) : HasDerivAt (fun s => (m s).field V v j) (dm.field V v j) t :=
  (HasDerivAt.fun_sum fun i _ => (moves.weight i j).const_mul (v i)).add (moves.hidden j)

theorem Moves.visibles (moves : Moves t m dm) (v : ι → ℝ) :
    HasDerivAt (fun s => ∑ i ∈ V, (m s).visible i * v i) (∑ i ∈ V, dm.visible i * v i) t :=
  HasDerivAt.fun_sum fun i _ => (moves.visible i).mul_const (v i)

theorem Moves.energy (moves : Moves t m dm) (v : ι → ℝ) (h : κ → ℝ) :
    HasDerivAt (fun s => (m s).energy V H v h) (dm.energy V H v h) t :=
  ((moves.visibles v).add (HasDerivAt.fun_sum fun j _ => (moves.field v j).mul_const (h j))).neg

/-- **The free energy moves as the energy does with hidden units at their chances of being on.** -/
theorem Moves.freeEnergy [DecidableEq κ] (moves : Moves t m dm) (v : ι → ℝ) :
    HasDerivAt (fun s => (m s).freeEnergy V H v) (dm.energy V H v fun j => Real.sigmoid ((m t).field V v j)) t := by
  simp only [freeEnergy_eq]
  refine ((moves.visibles v).add (HasDerivAt.fun_sum fun j _ => ?_)).neg
  have positive : 1 + Real.exp ((m t).field V v j) ≠ 0 := (add_pos one_pos (Real.exp_pos _)).ne'
  refine (((moves.field v j).exp.const_add 1).log positive).congr_deriv ?_
  show _ = dm.field V v j * Real.sigmoid ((m t).field V v j)
  rw [Real.sigmoid_def, Real.exp_neg]
  have nonzero := Real.exp_ne_zero ((m t).field V v j)
  field_simp
  ring

/-! ## Samples against data -/

/-- The mean of the free energy of data and of the energy of as many samples, which is taken away. -/
noncomputable def contrast [DecidableEq κ] (V : Finset ι) (H : Finset κ) (m : Machine ι κ) (rows : ℕ) (data vis : ℕ → ι → ℝ)
    (hid : ℕ → κ → ℝ) : ℝ := (∑ n ∈ range rows, (m.freeEnergy V H (data n) - m.energy V H (vis n) (hid n))) / rows

theorem Moves.contrast [DecidableEq κ] (moves : Moves t m dm) (rows : ℕ) (data vis : ℕ → ι → ℝ) (hid : ℕ → κ → ℝ) :
    HasDerivAt (fun s => (m s).contrast V H rows data vis hid)
      ((∑ n ∈ range rows, (dm.energy V H (data n) (fun j => Real.sigmoid ((m t).field V (data n) j)) -
        dm.energy V H (vis n) (hid n))) / rows) t :=
  (HasDerivAt.fun_sum fun n _ => (moves.freeEnergy (data n)).sub (moves.energy (vis n) (hid n))).div_const _

/-! The energy when one weight or one bias is 1, and all others are 0. -/

variable [DecidableEq ι] [DecidableEq κ] {i : ι} {j : κ}

theorem energy_weight (visible : i ∈ V) (hidden : j ∈ H) {weight : ι → κ → ℝ}
    (unit : ∀ i' ∈ V, ∀ j' ∈ H, weight i' j' = if i' = i ∧ j' = j then 1 else 0) (v : ι → ℝ) (h : κ → ℝ) :
    energy V H ⟨fun _ => 0, fun _ => 0, weight⟩ v h = -(v i * h j) := by
  unfold energy field
  dsimp only
  rw [sum_eq_zero fun i' _ => zero_mul (v i'), zero_add, sum_eq_single_of_mem j hidden fun j' mem other => ?_,
    sum_eq_single_of_mem i visible fun i' mem other => ?_]
  · rw [unit i visible j hidden, if_pos ⟨rfl, rfl⟩, mul_one, add_zero]
  · rw [unit i' mem j hidden, if_neg fun both => other both.1, mul_zero]
  · rw [sum_eq_zero fun i' mem' => ?_, zero_add, zero_mul]
    rw [unit i' mem' j' mem, if_neg fun both => other both.2, mul_zero]

omit [DecidableEq κ] in
theorem energy_visible (mem : i ∈ V) (v : ι → ℝ) (h : κ → ℝ) :
    energy V H ⟨fun i' => if i' = i then 1 else 0, fun _ => 0, fun _ _ => 0⟩ v h = -v i := by
  unfold energy field
  simp [mem]

omit [DecidableEq ι] in
theorem energy_hidden (mem : j ∈ H) (v : ι → ℝ) (h : κ → ℝ) :
    energy V H ⟨fun _ => 0, fun j' => if j' = j then 1 else 0, fun _ _ => 0⟩ v h = -h j := by
  unfold energy field
  simp [mem]

end Machine
end Singa.Boltzmann
