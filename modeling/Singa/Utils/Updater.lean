import Singa.Utils.ParamMsg

/-!
# `utils/updater.cc`: stochastic gradient descent

The updater works on one parameter at a time and takes two of its settings from
there: the multipliers of the learning rate and of the weight decay.
`GetLearningRate` depends on the step and the updater's own configuration only
and is any function of the step here.
-/

namespace Singa
set_option autoImplicit false

variable {α : Type}

/-- The settings that `lr` and `wd` of an `Update` are computed from. -/
structure UpdaterRates (α : Type) where
  getLearningRate : Int → α
  weightDecay : α

namespace UpdaterRates

section Rates

variable [Mul α]

/-- The learning rate that `Update` uses for a parameter. -/
def lr (u : UpdaterRates α) (step : Int) (proto : ParamProto α) : α := u.getLearningRate step * proto.learningRateMultiplier

/-- The weight decay that `Update` uses for a parameter. -/
def wd (u : UpdaterRates α) (proto : ParamProto α) : α := u.weightDecay * proto.weightDecayMultiplier

end Rates

/-- L2 regularization: the gradient that the data is changed with. -/
def decayed [Field α] [LinearOrder α] (u : UpdaterRates α) (proto : ParamProto α) (grad data : List α) : List α :=
  if 0 < u.wd proto then List.zipWith (fun g d => g + d * u.wd proto) grad data else grad

end UpdaterRates

/-- `if(step==0) history=0`. -/
def cleared [Zero α] (step : Int) (history : List α) : List α := if step = 0 then history.map fun _ => 0 else history

structure SGDUpdater (α : Type) extends UpdaterRates α where
  momentum : α

namespace SGDUpdater

/-- `SGDUpdater::Update`: new data, gradient and history. -/
def update [Field α] [LinearOrder α] (u : SGDUpdater α) (step : Int) (proto : ParamProto α) (data grad history : List α) :
    List α × List α × List α :=
  let lr := u.lr step proto
  let grad := u.decayed proto grad data
  if 0 < u.momentum then
    let history := cleared step history
    let history := List.zipWith (fun h g => h * u.momentum - lr * g) history grad
    (List.zipWith (· + ·) data history, grad, history)
  else
    let grad := grad.map (· * -lr)
    (List.zipWith (· + ·) data grad, grad, history)

/-- A server with this updater. -/
def env [Field α] [LinearOrder α] (u : SGDUpdater α) (mix : Nat → α → α → α) : Env α := ⟨u.update, mix⟩

/-- Parameters that differ in their names only are updated alike. -/
theorem update_congr [Field α] [LinearOrder α] (u : SGDUpdater α) {step : Int} {proto proto' : ParamProto α}
    (lr : u.lr step proto = u.lr step proto') (wd : u.wd proto = u.wd proto') :
    u.update step proto = u.update step proto' := by
  funext data grad history
  simp only [update, UpdaterRates.decayed, lr, wd]

end SGDUpdater
end Singa
