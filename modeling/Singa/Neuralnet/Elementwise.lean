import Mathlib
import Singa.Neuralnet.InnerProduct

/-!
# `ReLULayer`, `TanhLayer` and `DropoutLayer`

These layers work element by element. Their gradients multiply the gradient by
what `relu_grad` and `stanh_grad` make of the data, or by the mask.
-/

namespace Singa
set_option autoImplicit false

open Mshadow

variable {α : Type}

/-- Functions of `float`s: `tanhf` and `powf`. -/
structure FloatMath (α : Type) where
  tanh : α → α
  pow : α → α → α

/-- The functions that `float`s stand for. -/
noncomputable def FloatMath.real : FloatMath ℝ := ⟨Real.tanh, fun x y => x ^ y⟩

namespace Op

/-- `op::relu`. -/
def relu [Zero α] [LinearOrder α] (a : α) : α := max a 0

/-- `op::relu_grad`. -/
def reluGrad [Zero α] [One α] [LinearOrder α] (a : α) : α := if 0 < a then 1 else 0

variable [Field α]

/-- The constants of `op::stanh`. -/
def outerScale : α := 17159047 / 10000000

def innerScale : α := 66666667 / 100000000

/-- `op::stanh`. -/
def stanh (m : FloatMath α) (a : α) : α := outerScale * m.tanh (innerScale * a)

/-- `op::stanh_grad`. -/
def stanhGrad (a : α) : α := innerScale * outerScale - innerScale / outerScale * a * a

/-- `op::threshold`. -/
def threshold [LinearOrder α] (a b : α) : α := if a < b then 1 else 0

end Op

/-- `Setup` of a layer whose blobs are like those of its source; a source without gradient is a null pointer. -/
def setupLike [Zero α] (srclayers : List (LayerBlob α × Option (LayerBlob α))) : Run (LayerBlob α) :=
  match srclayers with
  | [] => .error .range
  | (_, none) :: _ => .error .nullPointer
  | (src, some _) :: _ => LayerBlob.fresh src.shape

/-- `data = F<op>(src)`, for tensors of one dimension. -/
def mapInto [Zero α] (op : α → α) (src data : LayerBlob α) : Run (LayerBlob α) :=
  if src.count = data.count then .ok (data.save data.count fun _ x => op (src.dptr x)) else .error .tensorShape

/-- `gsrc = factor * grad`, for tensors of one dimension. -/
def multiplyInto [Zero α] [Mul α] (factor : ℕ → α) (data grad gsrc : LayerBlob α) : Run (LayerBlob α) :=
  if data.count = grad.count ∧ grad.count = gsrc.count then
    .ok (gsrc.save gsrc.count fun _ x => factor x * grad.dptr x)
  else .error .tensorShape

/-- `ReLULayer::ComputeFeature`. -/
def ReLULayer.computeFeature [Zero α] [LinearOrder α] (src data : LayerBlob α) : Run (LayerBlob α) := mapInto Op.relu src data

/-- `ReLULayer::ComputeGradient`. -/
def ReLULayer.computeGradient [Semiring α] [LinearOrder α] (data grad gsrc : LayerBlob α) : Run (LayerBlob α) :=
  multiplyInto (fun x => Op.reluGrad (data.dptr x)) data grad gsrc

/-- `TanhLayer::ComputeFeature`. -/
def TanhLayer.computeFeature [Field α] (m : FloatMath α) (src data : LayerBlob α) : Run (LayerBlob α) :=
  mapInto (Op.stanh m) src data

/-- `TanhLayer::ComputeGradient`. -/
def TanhLayer.computeGradient [Field α] (data grad gsrc : LayerBlob α) : Run (LayerBlob α) :=
  multiplyInto (fun x => Op.stanhGrad (data.dptr x)) data grad gsrc

namespace DropoutLayer

/-- `DropoutLayer::ComputeFeature`: the mask and the data; `uniform` are the numbers that `Random` draws. -/
def computeFeature [Field α] [LinearOrder α] (pdrop : α) (train : Bool) (uniform : ℕ → α) (mask src data : LayerBlob α) :
    Run (LayerBlob α × LayerBlob α) :=
  if train then
    let pkeep := 1 - pdrop
    let mask := mask.save mask.count fun _ x => Op.threshold (uniform x) pkeep * (1 / pkeep)
    if src.count = data.count ∧ mask.count = data.count then
      .ok (mask, data.save data.count fun _ x => src.dptr x * mask.dptr x)
    else .error .tensorShape
  else do
    let data ← data.copyFrom src
    return (mask, data)

/-- `DropoutLayer::ComputeGradient`. -/
def computeGradient [CommSemiring α] (mask grad gsrc : LayerBlob α) : Run (LayerBlob α) :=
  multiplyInto mask.dptr mask grad gsrc

end DropoutLayer

/-! ## Gradients -/

section Elementwise

variable [Zero α]

theorem mapInto_ok {op : α → α} {src data feature : LayerBlob α} (run : mapInto op src data = .ok feature) :
    src.count = data.count ∧ feature.shape = data.shape ∧ ∀ k < data.count, feature.dptr k = op (src.dptr k) := by
  unfold mapInto at run
  split at run
  · next same =>
    cases run
    refine ⟨same, rfl, fun k lt => ?_⟩
    rw [LayerBlob.dptr_save data _ _ lt, Nat.mod_eq_of_lt lt]
  · cases run

theorem multiplyInto_ok [Mul α] {factor : ℕ → α} {data grad gsrc gsrc' : LayerBlob α}
    (run : multiplyInto factor data grad gsrc = .ok gsrc') :
    data.count = grad.count ∧ gsrc'.count = grad.count ∧ ∀ k < grad.count, gsrc'.dptr k = factor k * grad.dptr k := by
  unfold multiplyInto at run
  split at run
  · next same =>
    cases run
    refine ⟨same.1, same.2.symm, fun k lt => ?_⟩
    rw [same.2] at lt
    rw [LayerBlob.dptr_save gsrc _ _ lt, Nat.mod_eq_of_lt lt]
  · cases run

end Elementwise

variable {t : ℝ} {src feature : ℝ → LayerBlob ℝ} {dx : ℕ → ℝ}

/-- The velocities of a layer that works element by element, and their transpose: the factors that `ComputeGradient`
multiplies by. -/
theorem backprop_multiply (op : ℕ → ℝ → ℝ) {data blob : LayerBlob ℝ} {factor : ℕ → ℝ}
    (ok : ∀ s, (feature s).shape = data.shape ∧ ∀ k < data.count, (feature s).dptr k = op k ((src s).dptr k))
    (same : blob.count = data.count)
    (derivative : ∀ k < data.count, HasDerivAt (fun s => op k ((src s).dptr k)) (factor k * dx k) t) :
    ∃ dy, BlobMoves t feature dy ∧ ∀ grad gsrc gsrc' : LayerBlob ℝ, multiplyInto factor blob grad gsrc = .ok gsrc' →
      Pairing.pairing grad.count grad.dptr dy = Pairing.pairing gsrc'.count gsrc'.dptr dx := by
  have row : ∀ s, ∀ y < 1, ∀ x < data.count, (feature s).tensor data.count y x = op x ((src s).dptr x) := by
    intro s y row x column
    obtain rfl : y = 0 := by omega
    rw [LayerBlob.tensor, zero_mul, zero_add]
    exact (ok s).2 x column
  have size : ∀ s, (feature s).count = 1 * data.count := fun s => (congrArg List.prod (ok s).1).trans (one_mul _).symm
  obtain ⟨dy, moving, whole⟩ := BlobMoves.of_tensor size row fun y _ x column => derivative x column
  refine ⟨dy, moving, fun grad gsrc gsrc' back => ?_⟩
  obtain ⟨sameGrad, sameSrc, values⟩ := multiplyInto_ok back
  have line := whole grad
  rw [one_mul, ← same, sameGrad] at line
  rw [line, sameSrc]
  unfold Exp.pairing Pairing.pairing LayerBlob.tensor
  rw [Finset.sum_range_one]
  refine Finset.sum_congr rfl fun k mem => ?_
  rw [zero_mul, zero_add, values k (Finset.mem_range.mp mem)]
  ring

/-- **The gradient of a rectifier is the transpose of its derivative**, where no element of the source is zero. -/
theorem ReLULayer.backprop {data : LayerBlob ℝ} (run : ∀ s, ReLULayer.computeFeature (src s) data = .ok (feature s))
    (moves : BlobMoves t src dx) (nonzero : ∀ k < (src t).count, (src t).dptr k ≠ 0) :
    ∃ dy, BlobMoves t feature dy ∧ ∀ grad gsrc gsrc' : LayerBlob ℝ,
      ReLULayer.computeGradient (feature t) grad gsrc = .ok gsrc' →
      Pairing.pairing grad.count grad.dptr dy = Pairing.pairing gsrc'.count gsrc'.dptr dx := by
  have ok := fun s => mapInto_ok (run s)
  have derivative : ∀ k < data.count,
      HasDerivAt (fun s => Op.relu ((src s).dptr k)) (Op.reluGrad ((feature t).dptr k) * dx k) t := by
    intro k lt
    rw [(ok t).2.2 k lt]
    unfold Op.relu Op.reluGrad
    rcases lt_or_gt_of_ne (nonzero k ((ok t).1 ▸ lt)) with below | above
    · rw [max_eq_right below.le, if_neg (lt_irrefl _), zero_mul]
      refine (hasDerivAt_const t 0).congr_of_eventuallyEq ?_
      filter_upwards [(moves k).continuousAt.eventually_lt continuousAt_const below] with s below
      exact max_eq_right below.le
    · rw [max_eq_left above.le, if_pos above, one_mul]
      refine (moves k).congr_of_eventuallyEq ?_
      filter_upwards [continuousAt_const.eventually_lt (moves k).continuousAt above] with s above
      exact max_eq_left above.le
  exact backprop_multiply (fun _ => Op.relu) (fun s => (ok s).2) (congrArg List.prod (ok t).2.1) derivative

theorem hasDerivAt_tanh (x : ℝ) : HasDerivAt Real.tanh (1 - Real.tanh x ^ 2) x := by
  have quotient := (Real.hasDerivAt_sinh x).div (Real.hasDerivAt_cosh x) (Real.cosh_pos x).ne'
  have same : Real.tanh = fun y => Real.sinh y / Real.cosh y := funext Real.tanh_eq_sinh_div_cosh
  rw [same]
  refine quotient.congr_deriv ?_
  have := (Real.cosh_pos x).ne'
  dsimp only
  field_simp

/-- **The gradient of a scaled tangent is the transpose of its derivative**, with the constants as they are. -/
theorem TanhLayer.backprop {data : LayerBlob ℝ}
    (run : ∀ s, TanhLayer.computeFeature FloatMath.real (src s) data = .ok (feature s))
    (moves : BlobMoves t src dx) :
    ∃ dy, BlobMoves t feature dy ∧ ∀ grad gsrc gsrc' : LayerBlob ℝ,
      TanhLayer.computeGradient (feature t) grad gsrc = .ok gsrc' →
      Pairing.pairing grad.count grad.dptr dy = Pairing.pairing gsrc'.count gsrc'.dptr dx := by
  have ok := fun s => mapInto_ok (run s)
  have derivative : ∀ k < data.count, HasDerivAt (fun s => Op.stanh FloatMath.real ((src s).dptr k))
      (Op.stanhGrad ((feature t).dptr k) * dx k) t := by
    intro k lt
    rw [(ok t).2.2 k lt]
    have chain := ((hasDerivAt_tanh _).comp t ((moves k).const_mul Op.innerScale)).const_mul Op.outerScale
    refine chain.congr_deriv ?_
    unfold Op.stanhGrad Op.stanh
    dsimp only [FloatMath.real]
    have outer : (Op.outerScale : ℝ) ≠ 0 := by norm_num [Op.outerScale]
    field_simp
  exact backprop_multiply (fun _ => Op.stanh FloatMath.real) (fun s => (ok s).2) (congrArg List.prod (ok t).2.1) derivative

/-- **The gradient of a dropout layer is the transpose of its derivative**, with what has been drawn. -/
theorem DropoutLayer.backprop {pdrop : ℝ} {uniform : ℕ → ℝ} {mask data : LayerBlob ℝ} {mask' : ℝ → LayerBlob ℝ}
    (run : ∀ s, DropoutLayer.computeFeature pdrop true uniform mask (src s) data = .ok (mask' s, feature s))
    (moves : BlobMoves t src dx) :
    ∃ dy, BlobMoves t feature dy ∧ ∀ grad gsrc gsrc' : LayerBlob ℝ,
      DropoutLayer.computeGradient (mask' t) grad gsrc = .ok gsrc' →
      Pairing.pairing grad.count grad.dptr dy = Pairing.pairing gsrc'.count gsrc'.dptr dx := by
  have ok : ∀ s, mask' s = mask.save mask.count (fun _ x => Op.threshold (uniform x) (1 - pdrop) * (1 / (1 - pdrop))) ∧
      (mask' s).count = data.count ∧ (feature s).shape = data.shape ∧
      ∀ k < data.count, (feature s).dptr k = (src s).dptr k * (mask' s).dptr k := by
    intro s
    have run := run s
    unfold DropoutLayer.computeFeature at run
    rw [if_pos rfl] at run
    dsimp only at run
    split at run
    · next sizes =>
      injection run with result
      obtain ⟨here, there⟩ := Prod.ext_iff.mp result
      dsimp only at here there
      rw [← here, ← there]
      refine ⟨rfl, sizes.2, rfl, fun k lt => ?_⟩
      rw [LayerBlob.dptr_save data _ _ lt, Nat.mod_eq_of_lt lt]
    · cases run
  have fixed : ∀ s, mask' s = mask' t := fun s => (ok s).1.trans (ok t).1.symm
  have values : ∀ s, (feature s).shape = data.shape ∧
      ∀ k < data.count, (feature s).dptr k = (src s).dptr k * (mask' t).dptr k :=
    fun s => ⟨(ok s).2.2.1, fixed s ▸ (ok s).2.2.2⟩
  have derivative : ∀ k < data.count, HasDerivAt (fun s => (src s).dptr k * (mask' t).dptr k) ((mask' t).dptr k * dx k) t := by
    intro k _
    rw [mul_comm ((mask' t).dptr k)]
    exact (moves k).mul_const _
  exact backprop_multiply (fun k x => x * (mask' t).dptr k) values (ok t).2.1 derivative

end Singa
