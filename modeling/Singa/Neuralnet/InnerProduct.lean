import Singa.Mshadow.Motion

/-!
# `InnerProductLayer`

A fully connected layer: every sample is a row, and the rows are multiplied by
the weight. `mshadow` stops at blobs that the layer was not set up for.
-/

namespace Singa
set_option autoImplicit false

open Mshadow

variable {α : Type}

/-- The blobs of a `Param` as `Param::Setup` leaves them. -/
def paramBlob [Zero α] (shape : List ℕ) : Run (LayerBlob α) := LayerBlob.fresh shape

/-- `num_output` or `num_filters` of one partition. -/
def partitioned (partitionDim : Int) (npartitions n : ℕ) : ℕ := if 0 < partitionDim then n / npartitions else n

/-- The pairing of the gradient of a source with the velocities of its data; a source without gradient has none. -/
def paired : Option (LayerBlob ℝ) → (ℕ → ℝ) → ℝ
  | none, _ => 0
  | some g, dx => Pairing.pairing g.count g.dptr dx

structure InnerProductLayer where
  batchsize : ℕ
  vdim : ℕ
  hdim : ℕ
  deriving DecidableEq, Repr

namespace InnerProductLayer

/-- `InnerProductLayer::Setup`: the layer, its data, and weight and bias. -/
def setup [Zero α] (numOutput : ℕ) (partitionDim : Int) (npartitions : ℕ) (srclayers : List (LayerBlob α)) :
    Run (InnerProductLayer × LayerBlob α × List (LayerBlob α)) :=
  match srclayers with
  | [src] =>
    match src.shape with
    | [] => .error .range
    | batchsize :: _ => do
      let vdim := src.count / batchsize
      let hdim := partitioned partitionDim npartitions numOutput
      let data ← LayerBlob.fresh [batchsize, hdim]
      let weight ← paramBlob [vdim, hdim]
      let bias ← paramBlob [hdim]
      return (⟨batchsize, vdim, hdim⟩, data, [weight, bias])
  | _ => .error .srcLayers

variable (layer : InnerProductLayer)

/-- The blobs have the sizes that the layer was set up for; `data` stands for the gradient, too. -/
def Fits (weight bias src data : LayerBlob α) : Prop :=
  src.count = layer.batchsize * layer.vdim ∧ weight.count = layer.vdim * layer.hdim ∧ bias.count = layer.hdim ∧
    data.count = layer.batchsize * layer.hdim ∧ 0 < layer.batchsize

instance (weight bias src data : LayerBlob α) : Decidable (layer.Fits weight bias src data) := inferInstanceAs (Decidable (_ ∧ _))

variable [CommSemiring α]

/-- `InnerProductLayer::ComputeFeature`. -/
def computeFeature (weight bias src data : LayerBlob α) : Run (LayerBlob α) :=
  if layer.Fits weight bias src data then
    let data := data.save layer.hdim (Exp.dot layer.vdim (src.tensor layer.vdim) (weight.tensor layer.hdim))
    -- repmat: repeat bias vector into batchsize rows
    .ok (data.save layer.hdim fun y x => data.tensor layer.hdim y x + Exp.repmat bias.dptr y x)
  else .error .tensorShape

/-- `InnerProductLayer::ComputeGradient`: the gradients of weight and bias, and of the source if it has one. -/
def computeGradient (weight bias src grad gweight gbias : LayerBlob α) (gsrc : Option (LayerBlob α)) :
    Run (LayerBlob α × LayerBlob α × Option (LayerBlob α)) :=
  if layer.Fits weight bias src grad ∧ gweight.count = weight.count ∧ gbias.count = bias.count ∧
      ∀ g ∈ gsrc, g.count = src.count then
    .ok (gweight.save layer.hdim (Exp.dot layer.batchsize (src.tensor layer.vdim).T (grad.tensor layer.hdim)),
      gbias.save layer.hdim fun _ => Exp.sumRows layer.batchsize (grad.tensor layer.hdim),
      gsrc.map fun g => g.save layer.vdim (Exp.dot layer.hdim (grad.tensor layer.hdim) (weight.tensor layer.hdim).T))
  else .error .tensorShape

/-- What `ComputeFeature` returns. -/
theorem computeFeature_ok {weight bias src data : LayerBlob α} {feature : LayerBlob α}
    (run : layer.computeFeature weight bias src data = .ok feature) :
    layer.Fits weight bias src data ∧ feature.shape = data.shape ∧ ∀ n < layer.batchsize, ∀ j < layer.hdim,
      feature.tensor layer.hdim n j =
        Exp.dot layer.vdim (src.tensor layer.vdim) (weight.tensor layer.hdim) n j + bias.dptr j := by
  unfold computeFeature at run
  split at run
  · next fits =>
    obtain ⟨-, -, -, size, -⟩ := id fits
    cases run
    refine ⟨fits, rfl, fun n row j column => ?_⟩
    rw [LayerBlob.tensor_save (data.save layer.hdim _) _ size row column, LayerBlob.tensor_save data _ size row column]
    rfl
  · cases run

theorem computeGradient_ok {weight bias src grad gweight gbias : LayerBlob α} {gsrc : Option (LayerBlob α)}
    {gweight' gbias' : LayerBlob α} {gsrc' : Option (LayerBlob α)}
    (run : layer.computeGradient weight bias src grad gweight gbias gsrc = .ok (gweight', gbias', gsrc')) :
    gweight'.count = layer.vdim * layer.hdim ∧ gbias'.count = layer.hdim ∧
      (∀ i < layer.vdim, ∀ j < layer.hdim, gweight'.tensor layer.hdim i j =
        Exp.dot layer.batchsize (src.tensor layer.vdim).T (grad.tensor layer.hdim) i j) ∧
      (∀ j < layer.hdim, gbias'.dptr j = Exp.sumRows layer.batchsize (grad.tensor layer.hdim) j) ∧
      (gsrc' = none ↔ gsrc = none) ∧
      ∀ g ∈ gsrc', g.count = layer.batchsize * layer.vdim ∧ ∀ n < layer.batchsize, ∀ i < layer.vdim, g.tensor layer.vdim n i =
        Exp.dot layer.hdim (grad.tensor layer.hdim) (weight.tensor layer.hdim).T n i := by
  unfold computeGradient at run
  split at run
  · next fits =>
    obtain ⟨⟨sizeSrc, sizeWeight, sizeBias, -, -⟩, sameWeight, sameBias, sameSrc⟩ := fits
    have whole := sameWeight.trans sizeWeight
    have row := sameBias.trans sizeBias
    cases run
    refine ⟨whole, row, fun i below j column => LayerBlob.tensor_save gweight _ whole below column, fun j column => ?_,
      Option.map_eq_none_iff, fun g mem => ?_⟩
    · rw [LayerBlob.dptr_save gbias _ _ (row ▸ column), Nat.mod_eq_of_lt column]
    · obtain ⟨g, there, rfl⟩ := Option.mem_map.mp mem
      have size := (sameSrc g there).trans sizeSrc
      exact ⟨size, fun n below i column => LayerBlob.tensor_save g _ size below column⟩
  · cases run

/-- **The gradients of an inner product layer are the transpose of its derivative**: however the parameters and the
source move, the data move so that its gradient pairs with their velocity like the gradients with those of the others. -/
theorem backprop {t : ℝ} {weight bias src : ℝ → LayerBlob ℝ} {dw db dx : ℕ → ℝ} {data : LayerBlob ℝ} {feature : ℝ → LayerBlob ℝ}
    (run : ∀ s, layer.computeFeature (weight s) (bias s) (src s) data = .ok (feature s))
    (movesWeight : BlobMoves t weight dw) (movesBias : BlobMoves t bias db) (movesSrc : BlobMoves t src dx) :
    ∃ dy, BlobMoves t feature dy ∧ ∀ (grad gweight gbias : LayerBlob ℝ) (gsrc : Option (LayerBlob ℝ))
      (gweight' gbias' : LayerBlob ℝ) (gsrc' : Option (LayerBlob ℝ)),
      layer.computeGradient (weight t) (bias t) (src t) grad gweight gbias gsrc = .ok (gweight', gbias', gsrc') →
      (gsrc = none → dx = fun _ => 0) →
      Pairing.pairing grad.count grad.dptr dy = paired gsrc' dx + Pairing.pairing gweight'.count gweight'.dptr dw +
        Pairing.pairing gbias'.count gbias'.dptr db := by
  have fits : ∀ s, layer.Fits (weight s) (bias s) (src s) data := fun s => (layer.computeFeature_ok (run s)).1
  have size : ∀ s, (feature s).count = layer.batchsize * layer.hdim := by
    intro s
    obtain ⟨⟨-, -, -, whole, -⟩, shape, -⟩ := layer.computeFeature_ok (run s)
    rw [LayerBlob.count, shape]
    exact whole
  have product := (movesSrc.tensor layer.vdim).dot (movesWeight.tensor layer.hdim) layer.vdim
  obtain ⟨dy, moves, whole⟩ := BlobMoves.of_tensor size (fun s => (layer.computeFeature_ok (run s)).2.2)
    fun n _ j _ => (product n j).add (movesBias j)
  refine ⟨dy, moves, fun grad gweight gbias gsrc gweight' gbias' gsrc' back still => ?_⟩
  obtain ⟨sizeWeight, sizeBias, whereWeight, whereBias, hasSrc, whereSrc⟩ := layer.computeGradient_ok back
  have sizeGrad : grad.count = layer.batchsize * layer.hdim := by
    unfold computeGradient at back
    split at back
    · next fits => exact fits.1.2.2.2.1
    · cases back
  have source : Exp.pairing layer.batchsize layer.hdim (grad.tensor layer.hdim)
      (Exp.dot layer.vdim (fun y x => dx (y * layer.vdim + x)) ((weight t).tensor layer.hdim)) = paired gsrc' dx := by
    rw [pairing_dot_left]
    cases gsrc' with
    | none =>
      rw [still (hasSrc.mp rfl)]
      unfold Exp.pairing paired
      simp
    | some g =>
      obtain ⟨sizeSrc, whole⟩ := whereSrc g rfl
      rw [paired, sizeSrc, pairing_tensor]
      exact Exp.pairing_congr (fun n row i column => (whole n row i column).symm) fun _ _ _ _ => rfl
  have weights : Exp.pairing layer.batchsize layer.hdim (grad.tensor layer.hdim)
      (Exp.dot layer.vdim ((src t).tensor layer.vdim) fun y x => dw (y * layer.hdim + x)) =
        Pairing.pairing gweight'.count gweight'.dptr dw := by
    rw [pairing_dot_right, sizeWeight, pairing_tensor]
    exact Exp.pairing_congr (fun i row j column => (whereWeight i row j column).symm) fun _ _ _ _ => rfl
  have biases : Exp.pairing layer.batchsize layer.hdim (grad.tensor layer.hdim) (Exp.repmat db) =
      Pairing.pairing gbias'.count gbias'.dptr db := by
    rw [pairing_repmat (fits t).2.2.2.2, sizeBias]
    exact Pairing.pairing_congr (fun j column => (whereBias j column).symm) fun _ _ => rfl
  rw [sizeGrad, whole, Exp.pairing_add, Exp.pairing_add, source, weights]
  exact congrArg _ biases

end InnerProductLayer
end Singa
