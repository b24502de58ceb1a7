import Mathlib.Algebra.Module.Basic
import Mathlib.Tactic

/-!
# Accelerated descent

Nesterov's method takes the slope ahead of the point, where the velocity alone
would carry it. A program may keep the place ahead in the place of the point.
-/

namespace Momentum
set_option autoImplicit false

variable {α V : Type*} [Ring α] [AddCommGroup V] [Module α V]

/-- The point and its velocity after `t` steps. -/
def accelerated (momentum : α) (rate : ℕ → α) (slope : ℕ → V → V) (start : V) : ℕ → V × V
  | 0 => (start, 0)
  | t + 1 =>
    let s := accelerated momentum rate slope start t
    let velocity := momentum • s.2 + rate t • slope t (s.1 - momentum • s.2)
    (s.1 - velocity, velocity)

/-- The place ahead moves by the new velocity and the change of the momentum. -/
theorem ahead {momentum : α} {rate : ℕ → α} {slope : ℕ → V → V} {start : V} {place velocity : ℕ → V} (begins : place 0 = start)
    (rests : velocity 0 = 0) (pushed : ∀ t, velocity (t + 1) = momentum • velocity t + rate t • slope t (place t))
    (moved : ∀ t, place (t + 1) = place t - ((1 + momentum) • velocity (t + 1) - momentum • velocity t)) (t : ℕ) :
    accelerated momentum rate slope start t = (place t + momentum • velocity t, velocity t) := by
  induction t with
  | zero => rw [accelerated, begins, rests, smul_zero, add_zero]
  | succ t ih =>
    rw [accelerated, ih]
    dsimp only
    rw [add_sub_cancel_right, ← pushed, moved]
    refine Prod.ext ?_ rfl
    dsimp only
    rw [add_smul, one_smul]
    abel

end Momentum
