import Singa.Neuralnet.Elementwise

/-!
# `LRNLayer`

Local response normalization: an element is divided by a power of the sum of the
squares of the channels around it. The neighbourhood is symmetric, and so the
gradient is gathered by the same loop.
-/

namespace Singa
set_option autoImplicit false

open Mshadow Finset

variable {α : Type}

structure LRNLayer (α : Type) where
  lsize : ℕ
  knorm : α
  alpha : α
  beta : α
  batchsize : ℕ
  channels : ℕ
  height : ℕ
  width : ℕ

namespace LRNLayer

/-- `LRNLayer::Setup`: the layer, its data and the blob `norm_`. -/
def setup [Zero α] (lsize : ℕ) (knorm alpha beta : α) (srclayers : List (LayerBlob α)) :
    Run (LRNLayer α × LayerBlob α × LayerBlob α) :=
  match srclayers with
  | [src] =>
    if lsize % 2 ≠ 1 then .error .shape
    else do
      let data ← LayerBlob.fresh src.shape
      let norm ← LayerBlob.fresh src.shape
      match src.shape with
      | batchsize :: channels :: height :: width :: _ =>
        return (⟨lsize, knorm, alpha, beta, batchsize, channels, height, width⟩, data, norm)
      | _ => .error .range
  | _ => .error .srcLayers

variable (layer : LRNLayer α)

/-- The blobs have the sizes that the layer was set up for; `data` stands for the gradient, too. -/
def Fits (norm src data : LayerBlob α) : Prop :=
  src.shape = [layer.batchsize, layer.channels, layer.height, layer.width] ∧ data.shape = src.shape ∧
    norm.shape = src.shape ∧ layer.lsize % 2 = 1 ∧ layer.lsize ≤ layer.channels

instance (norm src data : LayerBlob α) : Decidable (layer.Fits norm src data) := inferInstanceAs (Decidable (_ ∧ _))

variable [Field α] (m : FloatMath α)

def salpha : α := layer.alpha / layer.lsize

/-- `chpool<red::sum>(exp, lsize_)`. -/
def nearby (exp : Exp α) : Exp α := Exp.chpool Reducer.sum layer.lsize layer.channels layer.height exp

/-- The normalizer without power. -/
def normalizer (src : Exp α) : Exp α := fun i j =>
  layer.nearby (fun i j => src i j * src i j) i j * layer.salpha + layer.knorm

/-- `LRNLayer::ComputeFeature`: the normalizer and the data. -/
def computeFeature (norm src data : LayerBlob α) : Run (LayerBlob α × LayerBlob α) :=
  if layer.Fits norm src data then
    let norm := norm.save layer.width (layer.normalizer (src.tensor layer.width))
    .ok (norm, data.save layer.width fun i j =>
      src.tensor layer.width i j * m.pow (norm.tensor layer.width i j) (-layer.beta))
  else .error .tensorShape

/-- What `ComputeGradient` adds to the gradient. -/
def spread (src norm grad : Exp α) : Exp α := fun i j => -2 * layer.beta * layer.salpha *
  layer.nearby (fun i j => grad i j * src i j * m.pow (norm i j) (-layer.beta - 1)) i j * src i j

/-- `LRNLayer::ComputeGradient`. -/
def computeGradient (norm src grad : LayerBlob α) (gsrc : Option (LayerBlob α)) : Run (LayerBlob α) :=
  match gsrc with
  | none => .error .nullPointer
  | some gsrc =>
    if layer.Fits norm src grad ∧ gsrc.shape = src.shape then
      let gsrc := gsrc.save layer.width fun i j =>
        grad.tensor layer.width i j * m.pow (norm.tensor layer.width i j) (-layer.beta)
      .ok (gsrc.save layer.width fun i j => gsrc.tensor layer.width i j +
        layer.spread m (src.tensor layer.width) (norm.tensor layer.width) (grad.tensor layer.width) i j)
    else .error .tensorShape

omit [Field α] in
theorem count_of_shape {b : LayerBlob α} (shape : b.shape = [layer.batchsize, layer.channels, layer.height, layer.width]) :
    b.count = layer.batchsize * layer.channels * layer.height * layer.width := by
  rw [LayerBlob.count, shape]
  simp [mul_assoc]

/-- What `ComputeFeature` returns. -/
theorem computeFeature_ok {norm src data norm' feature : LayerBlob α}
    (run : layer.computeFeature m norm src data = .ok (norm', feature)) :
    layer.Fits norm src data ∧ feature.shape = data.shape ∧
      ∀ i < layer.batchsize * layer.channels * layer.height, ∀ j < layer.width,
        norm'.tensor layer.width i j = layer.normalizer (src.tensor layer.width) i j ∧
        feature.tensor layer.width i j =
          src.tensor layer.width i j * m.pow (layer.normalizer (src.tensor layer.width) i j) (-layer.beta) := by
  unfold computeFeature at run
  split at run
  · next fits =>
    obtain ⟨shape, same, norms, -, -⟩ := id fits
    cases run
    have size := layer.count_of_shape (same.trans shape)
    have size' := layer.count_of_shape (norms.trans shape)
    refine ⟨fits, rfl, fun i row j column => ?_⟩
    have here := LayerBlob.tensor_save norm (layer.normalizer (src.tensor layer.width)) size' row column
    refine ⟨here, ?_⟩
    rw [LayerBlob.tensor_save data _ size row column, here]
  · cases run

/-- What `ComputeGradient` returns. -/
theorem computeGradient_ok {norm src grad : LayerBlob α} {gsrc : Option (LayerBlob α)} {gsrc' : LayerBlob α}
    (run : layer.computeGradient m norm src grad gsrc = .ok gsrc') :
    grad.count = layer.batchsize * layer.channels * layer.height * layer.width ∧
      gsrc'.count = layer.batchsize * layer.channels * layer.height * layer.width ∧
      ∀ i < layer.batchsize * layer.channels * layer.height, ∀ j < layer.width, gsrc'.tensor layer.width i j =
        grad.tensor layer.width i j * m.pow (norm.tensor layer.width i j) (-layer.beta) +
          layer.spread m (src.tensor layer.width) (norm.tensor layer.width) (grad.tensor layer.width) i j := by
  unfold computeGradient at run
  cases gsrc with
  | none => cases run
  | some gsrc =>
    dsimp only at run
    split at run
    · next fits =>
      obtain ⟨⟨shape, same, -⟩, sameSrc⟩ := fits
      cases run
      have size := layer.count_of_shape (sameSrc.trans shape)
      refine ⟨layer.count_of_shape (same.trans shape), size, fun i row j column => ?_⟩
      rw [LayerBlob.tensor_save _ _ (by exact size) row column, LayerBlob.tensor_save gsrc _ size row column]
    · cases run

/-- The normalizer is at least `knorm_`. -/
theorem normalizer_pos {layer : LRNLayer ℝ} (offset : 0 < layer.knorm) (scale : 0 ≤ layer.alpha) (src : Exp ℝ)
    {n c y : ℕ} (channel : c < layer.channels) (row : y < layer.height) (x : ℕ) :
    0 < layer.normalizer src ((n * layer.channels + c) * layer.height + y) x := by
  unfold normalizer nearby salpha
  rw [chpool_at _ channel row]
  refine add_pos_of_nonneg_of_pos (mul_nonneg (sum_nonneg fun cc _ => ?_) (by positivity)) offset
  split
  · exact mul_self_nonneg _
  · exact le_rfl

/-- **The gradient of a normalization layer is the transpose of its derivative**, whatever the source has. -/
theorem backprop {t : ℝ} {layer : LRNLayer ℝ} (offset : 0 < layer.knorm) (scale : 0 ≤ layer.alpha)
    {src norm' feature : ℝ → LayerBlob ℝ} {dx : ℕ → ℝ} {norm data : LayerBlob ℝ}
    (run : ∀ s, layer.computeFeature FloatMath.real norm (src s) data = .ok (norm' s, feature s)) (moves : BlobMoves t src dx) :
    ∃ dy, BlobMoves t feature dy ∧ ∀ (grad : LayerBlob ℝ) (gsrc : Option (LayerBlob ℝ)) (gsrc' : LayerBlob ℝ),
      layer.computeGradient FloatMath.real (norm' t) (src t) grad gsrc = .ok gsrc' →
      Pairing.pairing grad.count grad.dptr dy = Pairing.pairing gsrc'.count gsrc'.dptr dx := by
  have size : ∀ s, (feature s).count = layer.batchsize * layer.channels * layer.height * layer.width := by
    intro s
    obtain ⟨⟨here, same, -⟩, shape, -⟩ := layer.computeFeature_ok FloatMath.real (run s)
    exact layer.count_of_shape (shape.trans (same.trans here))
  have source := moves.tensor layer.width
  set d : Exp ℝ := fun y x => dx (y * layer.width + x) with d_eq
  set x : Exp ℝ := (src t).tensor layer.width with x_eq
  set k : Exp ℝ := layer.normalizer x with k_eq
  -- the normalizer moves, and is positive
  have norms : Exp.Moves t (fun s => layer.normalizer ((src s).tensor layer.width))
      fun i j => layer.nearby (fun i j => 2 * (x i j * d i j)) i j * layer.salpha := by
    intro i j
    have squares : Exp.Moves t (fun s i j => (src s).tensor layer.width i j * (src s).tensor layer.width i j)
        fun i j => 2 * (x i j * d i j) := by
      intro i j
      have := (source i j).mul (source i j)
      rwa [show d i j * x i j + x i j * d i j = 2 * (x i j * d i j) by ring] at this
    exact ((squares.chpool layer.lsize layer.channels layer.height i j).mul_const _).add_const _
  have positive : ∀ i < layer.batchsize * layer.channels * layer.height, ∀ j, k i j ≠ 0 := by
    intro i row j
    have tall : 0 < layer.height := Nat.pos_of_ne_zero fun zero => by simp [zero] at row
    have channels : 0 < layer.channels := Nat.pos_of_ne_zero fun zero => by simp [zero] at row
    obtain ⟨number, line⟩ := Grid.cell_of_number i tall
    obtain ⟨number', channel⟩ := Grid.cell_of_number (i / layer.height) channels
    have := normalizer_pos offset scale x (n := i / layer.height / layer.channels) channel line j
    rw [number', number] at this
    exact this.ne'
  obtain ⟨dy, moving, whole⟩ := BlobMoves.of_tensor size
    (fun s i row j column => ((layer.computeFeature_ok FloatMath.real (run s)).2.2 i row j column).2)
    fun i row j _ => (source i j).mul ((norms i j).rpow_const (.inl (positive i row j)))
  refine ⟨dy, moving, fun grad gsrc gsrc' back => ?_⟩
  obtain ⟨sizeGrad, sizeSrc, filled⟩ := layer.computeGradient_ok FloatMath.real back
  have norm_eq : ∀ i < layer.batchsize * layer.channels * layer.height, ∀ j < layer.width,
      (norm' t).tensor layer.width i j = k i j :=
    fun i row j column => ((layer.computeFeature_ok FloatMath.real (run t)).2.2 i row j column).1
  set g : Exp ℝ := grad.tensor layer.width with g_eq
  set weighed : Exp ℝ := fun i j => g i j * x i j * (norm' t).tensor layer.width i j ^ (-layer.beta - 1) with weighed_eq
  have direct : Exp.pairing (layer.batchsize * layer.channels * layer.height) layer.width g
      (fun i j => d i j * k i j ^ (-layer.beta)) = Exp.pairing (layer.batchsize * layer.channels * layer.height) layer.width
        (fun i j => g i j * (norm' t).tensor layer.width i j ^ (-layer.beta)) d := by
    refine sum_congr rfl fun i row => sum_congr rfl fun j column => ?_
    dsimp only
    rw [norm_eq i (mem_range.mp row) j (mem_range.mp column)]
    ring
  have across : Exp.pairing (layer.batchsize * layer.channels * layer.height) layer.width g (fun i j =>
      x i j * (layer.nearby (fun i j => 2 * (x i j * d i j)) i j * layer.salpha * -layer.beta * k i j ^ (-layer.beta - 1))) =
      Exp.pairing (layer.batchsize * layer.channels * layer.height) layer.width
        (layer.spread FloatMath.real x ((norm' t).tensor layer.width) g) d := by
    calc _ = Exp.pairing (layer.batchsize * layer.channels * layer.height) layer.width weighed
          (layer.nearby fun i j => x i j * d i j) * (-2 * layer.beta * layer.salpha) := by
          rw [← Exp.pairing_mul_right]
          refine sum_congr rfl fun i row => sum_congr rfl fun j column => ?_
          rw [weighed_eq]
          dsimp only
          rw [nearby, chpool_mul, norm_eq i (mem_range.mp row) j (mem_range.mp column)]
          unfold nearby
          ring
      _ = Exp.pairing (layer.batchsize * layer.channels * layer.height) layer.width (layer.nearby weighed)
          (fun i j => x i j * d i j) * (-2 * layer.beta * layer.salpha) := by
          congr 1
          exact chpool_transposed layer.batchsize _ _
      _ = _ := by
          rw [← Exp.pairing_mul_right]
          refine sum_congr rfl fun i _ => sum_congr rfl fun j _ => ?_
          unfold spread
          dsimp only [FloatMath.real]
          ring
  rw [sizeGrad, whole, sizeSrc, pairing_tensor, Exp.pairing_add]
  refine (congrArg₂ (· + ·) direct across).trans ?_
  rw [Exp.pairing_congr filled fun _ _ _ _ => rfl, Exp.pairing_comm, Exp.pairing_comm _ _ _ d, ← Exp.pairing_add,
    Exp.pairing_comm]
  rfl

end LRNLayer
end Singa
