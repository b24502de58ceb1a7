import Singa.Base.Boltzmann
import Singa.Neuralnet.Net
import Singa.Neuralnet.SoftmaxGradient

/-!
# `RBMVisLayer` and `RBMHidLayer`

The two layers of a restricted Boltzmann machine. Either has data from the
positive phase, and a sample that the negative phase draws. The numbers that the
generator returns are given, and counted.
-/

namespace Singa
set_option autoImplicit false

open Mshadow

variable {α : Type}

/-- `op::sigmoid`. -/
def Op.sigmoid [Field α] (exp : α → α) (a : α) : α := 1 / (1 + exp (-a))

/-- `SampleBinary`: `drawn` numbers have been returned before. -/
def sampleBinary [Zero α] [One α] [LinearOrder α] (uniform : ℕ → α) (drawn width : ℕ) (dst : LayerBlob α) : LayerBlob α :=
  dst.save width fun i j => if uniform (drawn + (i * width + j)) > dst.tensor width i j then 0 else 1

/-- `dst = dot(src, weight); dst += repmat(bias, rows); dst = F<op::sigmoid>(dst)`. -/
def sigmoidUnits [Field α] (exp : α → α) (inner width : ℕ) (src weight : Exp α) (bias : ℕ → α) (dst : LayerBlob α) : LayerBlob α :=
  let dst := dst.save width (Exp.dot inner src weight)
  let dst := dst.save width fun y x => dst.tensor width y x + Exp.repmat bias y x
  dst.save width fun y x => Op.sigmoid exp (dst.tensor width y x)

/-- `dst = positive; dst -= negative; dst *= scale`. -/
def difference [Ring α] (width : ℕ) (positive negative : Exp α) (scale : α) (dst : LayerBlob α) : LayerBlob α :=
  let dst := dst.save width positive
  let dst := dst.save width fun y x => dst.tensor width y x - negative y x
  dst.save width fun y x => dst.tensor width y x * scale

/-- `hid_idx_` and `data_idx_` are the places of the two sources. -/
structure RBMVisLayer where
  hdim : ℕ
  vdim : ℕ
  batchsize : ℕ
  negBatchsize : ℕ
  dataIdx : ℕ
  hidIdx : ℕ
  deriving DecidableEq, Repr

structure RBMHidLayer (α : Type) where
  hdim : ℕ
  vdim : ℕ
  batchsize : ℕ
  negBatchsize : ℕ
  scale : α

namespace RBMVisLayer

/-- `RBMVisLayer::Setup`: the layer, data and sample, and weight and bias. A source comes with its destinations. -/
def setup {ν : Type} [DecidableEq ν] [Zero α] (name : ν) (numOutput : ℕ) (srclayers : List (LayerBlob α × List ν)) :
    Run (RBMVisLayer × List (LayerBlob α) × List (LayerBlob α)) :=
  match srclayers with
  | [a, b] =>
    -- the hidden layer is the last source that has this one among its destinations
    if name ∉ b.2 ∧ name ∉ a.2 then .error .range
    else
      let hidIdx := if name ∈ b.2 then 1 else 0
      let dataIdx := if hidIdx = 1 then 0 else 1
      let src := if dataIdx = 0 then a.1 else b.1
      match src.shape with
      | [] => .error .range
      | batchsize :: _ => do
        let vdim := src.count / batchsize
        let data ← LayerBlob.fresh [batchsize, vdim]
        let sample ← LayerBlob.fresh [batchsize, vdim]
        let weight ← paramBlob [vdim, numOutput]
        let bias ← paramBlob [vdim]
        return (⟨numOutput, vdim, batchsize, batchsize, dataIdx, hidIdx⟩, [data, sample], [weight, bias])
  | _ => .error .srcLayers

end RBMVisLayer

namespace RBMHidLayer

/-- `RBMHidLayer::Setup`: the layer, data and sample, and weight and bias. A source comes with its data and its sample. -/
def setup [Zero α] [One α] (hidDim : ℕ) (srclayers : List (LayerBlob α × LayerBlob α)) :
    Run (RBMHidLayer α × List (LayerBlob α) × List (LayerBlob α)) :=
  match srclayers with
  | [src] =>
    match src.1.shape, src.2.shape with
    | batchsize :: _, negBatchsize :: _ => do
      let vdim := src.1.count / batchsize
      let data ← LayerBlob.fresh [batchsize, hidDim]
      let sample ← LayerBlob.fresh [negBatchsize, hidDim]
      let bias ← paramBlob [hidDim]
      let weight ← paramBlob [vdim, hidDim]
      return (⟨hidDim, vdim, batchsize, negBatchsize, 1⟩, [data, sample], [weight, bias])
    | _, _ => .error .range
  | _ => .error .srcLayers

end RBMHidLayer

/-- Where both sources have the layer among their destinations, the second one is taken for the hidden layer. -/
theorem RBMVisLayer.setup_layer {ν : Type} [DecidableEq ν] [Zero α] {name : ν} {numOutput : ℕ} {src hid : LayerBlob α} {dsts dsts' : List ν}
    {made : RBMVisLayer × List (LayerBlob α) × List (LayerBlob α)} (listed : name ∈ dsts')
    (run : RBMVisLayer.setup name numOutput [(src, dsts), (hid, dsts')] = .ok made) :
    ∃ batchsize, src.shape.head? = some batchsize ∧
      made.1 = ⟨numOutput, src.count / batchsize, batchsize, batchsize, 0, 1⟩ := by
  unfold RBMVisLayer.setup at run
  simp only [listed, not_true_eq_false, false_and, if_false, if_true] at run
  split at run
  · cases run
  · next batchsize rest shape =>
    obtain ⟨data, -, run⟩ := Run.do_ok.mp run
    obtain ⟨sample, -, run⟩ := Run.do_ok.mp run
    obtain ⟨weight, -, run⟩ := Run.do_ok.mp run
    obtain ⟨bias, -, run⟩ := Run.do_ok.mp run
    cases run
    exact ⟨batchsize, congrArg List.head? shape, rfl⟩

/-- What a layer of an RBM has: data, a sample, `is_first_iteration_vis_`, and the numbers that were drawn. -/
structure RBMUnits (α : Type) where
  data : LayerBlob α
  sample : LayerBlob α
  first : Bool
  drawn : ℕ

section Units

variable [Field α] (b : LayerBlob α) {rows width y x : ℕ} (size : b.count = rows * width) (row : y < rows) (column : x < width)
include size row column

theorem tensor_sigmoidUnits (exp : α → α) (inner : ℕ) (src weight : Exp α) (bias : ℕ → α) :
    (sigmoidUnits exp inner width src weight bias b).tensor width y x =
      Op.sigmoid exp (Exp.dot inner src weight y x + bias x) := by
  unfold sigmoidUnits
  dsimp only
  rw [LayerBlob.tensor_save _ _ (by exact size) row column, LayerBlob.tensor_save _ _ (by exact size) row column,
    LayerBlob.tensor_save _ _ size row column]
  rfl

theorem tensor_difference (positive negative : Exp α) (scale : α) :
    (difference width positive negative scale b).tensor width y x = (positive y x - negative y x) * scale := by
  unfold difference
  dsimp only
  rw [LayerBlob.tensor_save _ _ (by exact size) row column, LayerBlob.tensor_save _ _ (by exact size) row column,
    LayerBlob.tensor_save _ _ size row column]

end Units

variable [Field α] [LinearOrder α]

namespace RBMVisLayer

variable (layer : RBMVisLayer)

/-- `RBMVisLayer::ComputeFeature`. -/
def computeFeature (ops : FloatOps α) (uniform : ℕ → α) (phase : Phase) (weight bias src hidSample : LayerBlob α) (u : RBMUnits α) :
    Run (RBMUnits α) :=
  match phase with
  | .kPositive =>
    if src.count = layer.batchsize * layer.vdim ∧ u.data.count = src.count then
      .ok { u with data := u.data.save layer.vdim (src.tensor layer.vdim) }
    else .error .tensorShape
  | .kNegative =>
    if u.first then
      if src.count = layer.batchsize * layer.vdim ∧ u.sample.count = src.count then
        .ok { u with sample := u.sample.save layer.vdim (src.tensor layer.vdim), first := false }
      else .error .tensorShape
    else if hidSample.count = layer.negBatchsize * layer.hdim ∧ weight.count = layer.vdim * layer.hdim ∧ bias.count = layer.vdim ∧
        u.sample.count = layer.negBatchsize * layer.vdim then
      -- fetch sampling results from hidden layer
      let sample := sigmoidUnits ops.exp layer.hdim layer.vdim (hidSample.tensor layer.hdim) (weight.tensor layer.hdim).T bias.dptr
        u.sample
      .ok { u with sample := sampleBinary uniform u.drawn layer.vdim sample, drawn := u.drawn + sample.count }
    else .error .tensorShape
  | _ => .ok u

/-- `RBMVisLayer::ComputeGradient`: the gradients of weight and bias. -/
def computeGradient (data sample hidData hidSample gweight gbias : LayerBlob α) : Run (LayerBlob α × LayerBlob α) :=
  if data.count = layer.batchsize * layer.vdim ∧ sample.count = layer.negBatchsize * layer.vdim ∧
      hidData.count = layer.batchsize * layer.hdim ∧ hidSample.count = layer.negBatchsize * layer.hdim ∧
      gweight.count = layer.vdim * layer.hdim ∧ gbias.count = layer.vdim then
    .ok (difference layer.hdim (Exp.dot layer.negBatchsize (sample.tensor layer.vdim).T (hidSample.tensor layer.hdim))
        (Exp.dot layer.batchsize (data.tensor layer.vdim).T (hidData.tensor layer.hdim)) (1 / (1 * layer.batchsize)) gweight,
      difference layer.vdim (fun _ => Exp.sumRows layer.negBatchsize (sample.tensor layer.vdim))
        (fun _ => Exp.sumRows layer.batchsize (data.tensor layer.vdim)) (1 / (1 * layer.batchsize)) gbias)
  else .error .tensorShape

/-- `RBMVisLayer::ComputeLoss`: the reconstruction error. -/
def computeLoss (ops : FloatOps α) (weight bias src hidData : LayerBlob α) : Run α :=
  if src.count = layer.batchsize * layer.vdim ∧ hidData.count = layer.batchsize * layer.hdim ∧
      weight.count = layer.vdim * layer.hdim ∧ bias.count = layer.vdim then
    let reconstruct := sigmoidUnits ops.exp layer.hdim layer.vdim (hidData.tensor layer.hdim) (weight.tensor layer.hdim).T bias.dptr src
    let loss := loop 0 (layer.vdim * layer.batchsize) (fun loss i =>
      loss + -(src.dptr i * ops.log (reconstruct.dptr i) + (1 - src.dptr i) * ops.log (1 - reconstruct.dptr i))) 0
    .ok (loss / layer.batchsize)
  else .error .tensorShape

end RBMVisLayer

namespace RBMHidLayer

variable (layer : RBMHidLayer α)

/-- `RBMHidLayer::ComputeFeature`: `src` are the data of the source in the positive phase, its sample in the negative one. -/
def computeFeature (ops : FloatOps α) (uniform : ℕ → α) (phase : Phase) (weight bias src : LayerBlob α) (u : RBMUnits α) :
    Run (RBMUnits α) :=
  match phase with
  | .kPositive =>
    if src.count = layer.batchsize * layer.vdim ∧ weight.count = layer.vdim * layer.hdim ∧ bias.count = layer.hdim ∧
        u.data.count = layer.batchsize * layer.hdim then
      .ok { u with data := sigmoidUnits ops.exp layer.vdim layer.hdim (src.tensor layer.vdim) (weight.tensor layer.hdim) bias.dptr u.data }
    else .error .tensorShape
  | .kNegative =>
    if src.count = layer.negBatchsize * layer.vdim ∧ weight.count = layer.vdim * layer.hdim ∧ bias.count = layer.hdim ∧
        u.sample.count = layer.negBatchsize * layer.hdim then
      let sample := sigmoidUnits ops.exp layer.vdim layer.hdim (src.tensor layer.vdim) (weight.tensor layer.hdim) bias.dptr u.sample
      .ok { u with sample := sampleBinary uniform u.drawn layer.hdim sample, drawn := u.drawn + sample.count }
    else .error .tensorShape
  -- data: sigmoid(Wv+b)
  | .kLoss => .ok { u with data := sampleBinary uniform u.drawn layer.hdim u.data, drawn := u.drawn + u.data.count }
  | _ => .ok u

/-- `RBMHidLayer::ComputeGradient`: the gradient of the bias. That of the weight stays as it is. -/
def computeGradient (data sample gbias : LayerBlob α) : Run (LayerBlob α) :=
  if data.count = layer.batchsize * layer.hdim ∧ sample.count = layer.negBatchsize * layer.hdim ∧ gbias.count = layer.hdim then
    .ok (difference layer.hdim (fun _ => Exp.sumRows layer.negBatchsize (sample.tensor layer.hdim))
      (fun _ => Exp.sumRows layer.batchsize (data.tensor layer.hdim)) (layer.scale / (1 * layer.batchsize)) gbias)
  else .error .tensorShape

end RBMHidLayer

/-! ## What a layer writes -/

omit [LinearOrder α] in
/-- The gradients of a layer are as long as the ones they replace. -/
theorem RBMVisLayer.computeGradient_counts {layer : RBMVisLayer} {data sample hidData hidSample gweight gbias : LayerBlob α}
    {g : LayerBlob α × LayerBlob α} (run : layer.computeGradient data sample hidData hidSample gweight gbias = .ok g) :
    g.1.count = gweight.count ∧ g.2.count = gbias.count := by
  unfold RBMVisLayer.computeGradient at run
  split at run
  · cases run
    exact ⟨rfl, rfl⟩
  · cases run

omit [LinearOrder α] in
theorem RBMHidLayer.computeGradient_count {layer : RBMHidLayer α} {data sample gbias g : LayerBlob α}
    (run : layer.computeGradient data sample gbias = .ok g) : g.count = gbias.count := by
  unfold RBMHidLayer.computeGradient at run
  split at run
  · cases run
    rfl
  · cases run

section Gradient

/-- `sum_rows` of samples, less that of the data. -/
theorem dptr_difference {b : LayerBlob ℝ} {rows rows' width x : ℕ} (some : 0 < rows) (some' : 0 < rows') (size : b.count = width)
    (column : x < width) (positive negative : Exp ℝ) (scale : ℝ) :
    (difference width (fun _ => Exp.sumRows rows positive) (fun _ => Exp.sumRows rows' negative) scale b).dptr x =
      (∑ n ∈ Finset.range rows, positive n x - ∑ n ∈ Finset.range rows', negative n x) * scale := by
  have whole : b.count = 1 * width := by rw [size, one_mul]
  have here := tensor_difference b whole Nat.one_pos column (fun _ => Exp.sumRows rows positive) (fun _ => Exp.sumRows rows' negative) scale
  rw [sumRows_eq some, sumRows_eq some'] at here
  rw [← here, LayerBlob.tensor, zero_mul, zero_add]

theorem RBMVisLayer.computeGradient_ok {layer : RBMVisLayer} {data sample hidData hidSample gweight gbias gweight' gbias' : LayerBlob ℝ}
    (some : 0 < layer.batchsize) (some' : 0 < layer.negBatchsize)
    (run : layer.computeGradient data sample hidData hidSample gweight gbias = .ok (gweight', gbias')) :
    (∀ i < layer.vdim, ∀ j < layer.hdim, gweight'.tensor layer.hdim i j =
      (∑ n ∈ Finset.range layer.negBatchsize, sample.tensor layer.vdim n i * hidSample.tensor layer.hdim n j -
        ∑ n ∈ Finset.range layer.batchsize, data.tensor layer.vdim n i * hidData.tensor layer.hdim n j) * (1 / (1 * layer.batchsize))) ∧
    ∀ i < layer.vdim, gbias'.dptr i = (∑ n ∈ Finset.range layer.negBatchsize, sample.tensor layer.vdim n i -
      ∑ n ∈ Finset.range layer.batchsize, data.tensor layer.vdim n i) * (1 / (1 * layer.batchsize)) := by
  unfold RBMVisLayer.computeGradient at run
  split at run
  · next fits =>
    obtain ⟨-, -, -, -, weight, bias⟩ := fits
    cases run
    constructor
    · intro i row j column
      exact tensor_difference gweight weight row column _ _ _
    · intro i column
      exact dptr_difference some' some bias column _ _ _
  · cases run

theorem RBMHidLayer.computeGradient_ok {layer : RBMHidLayer ℝ} {data sample gbias gbias' : LayerBlob ℝ} (some : 0 < layer.batchsize)
    (some' : 0 < layer.negBatchsize) (run : layer.computeGradient data sample gbias = .ok gbias') :
    ∀ j < layer.hdim, gbias'.dptr j = (∑ n ∈ Finset.range layer.negBatchsize, sample.tensor layer.hdim n j -
      ∑ n ∈ Finset.range layer.batchsize, data.tensor layer.hdim n j) * (layer.scale / (1 * layer.batchsize)) := by
  unfold RBMHidLayer.computeGradient at run
  split at run
  · next fits =>
    cases run
    exact fun j column => dptr_difference some' some fits.2.2 column _ _ _
  · cases run

end Gradient

section Frame

variable (ops : FloatOps α) (uniform : ℕ → α) {weight bias src hidSample : LayerBlob α} {u : RBMUnits α}

/-- The positive phase copies the data of the source. -/
theorem RBMVisLayer.positive_ok (layer : RBMVisLayer) (weight bias hidSample : LayerBlob α)
    (source : src.count = layer.batchsize * layer.vdim) (data : u.data.count = layer.batchsize * layer.vdim) :
    ∃ u', layer.computeFeature ops uniform .kPositive weight bias src hidSample u = .ok u' ∧ u'.data.count = u.data.count ∧
      u'.sample = u.sample ∧ ∀ n < layer.batchsize, ∀ i < layer.vdim, u'.data.tensor layer.vdim n i = src.tensor layer.vdim n i := by
  refine ⟨_, if_pos ⟨source, data.trans source.symm⟩, rfl, rfl, fun n row i column => ?_⟩
  exact LayerBlob.tensor_save _ _ data row column

/-- The negative phase leaves the data as they are. -/
theorem RBMVisLayer.negative_ok (layer : RBMVisLayer) (source : src.count = layer.batchsize * layer.vdim)
    (same : layer.negBatchsize = layer.batchsize) (hidden : hidSample.count = layer.negBatchsize * layer.hdim)
    (sizeWeight : weight.count = layer.vdim * layer.hdim) (sizeBias : bias.count = layer.vdim)
    (sample : u.sample.count = layer.negBatchsize * layer.vdim) :
    ∃ u', layer.computeFeature ops uniform .kNegative weight bias src hidSample u = .ok u' ∧ u'.data = u.data ∧
      u'.sample.count = u.sample.count := by
  by_cases first : u.first = true
  · refine ⟨_, (if_pos first).trans (if_pos ⟨source, ?_⟩), rfl, rfl⟩
    rw [sample, source, same]
  · exact ⟨_, (if_neg first).trans (if_pos ⟨hidden, sizeWeight, sizeBias, sample⟩), rfl, rfl⟩

variable (layer : RBMHidLayer α) (sizeWeight : weight.count = layer.vdim * layer.hdim) (sizeBias : bias.count = layer.hdim)
include sizeWeight sizeBias

/-- The positive phase computes the chances of the hidden units. -/
theorem RBMHidLayer.positive_ok (source : src.count = layer.batchsize * layer.vdim)
    (data : u.data.count = layer.batchsize * layer.hdim) :
    ∃ u', layer.computeFeature ops uniform .kPositive weight bias src u = .ok u' ∧ u'.data.count = u.data.count ∧
      u'.sample = u.sample ∧ ∀ n < layer.batchsize, ∀ j < layer.hdim, u'.data.tensor layer.hdim n j =
        Op.sigmoid ops.exp (Exp.dot layer.vdim (src.tensor layer.vdim) (weight.tensor layer.hdim) n j + bias.dptr j) := by
  refine ⟨_, if_pos ⟨source, sizeWeight, sizeBias, data⟩, rfl, rfl, fun n row j column => ?_⟩
  exact tensor_sigmoidUnits _ data row column _ _ _ _ _

theorem RBMHidLayer.negative_ok (source : src.count = layer.negBatchsize * layer.vdim)
    (sample : u.sample.count = layer.negBatchsize * layer.hdim) :
    ∃ u', layer.computeFeature ops uniform .kNegative weight bias src u = .ok u' ∧ u'.data = u.data ∧
      u'.sample.count = u.sample.count :=
  ⟨_, if_pos ⟨source, sizeWeight, sizeBias, sample⟩, rfl, rfl⟩

end Frame

end Singa
