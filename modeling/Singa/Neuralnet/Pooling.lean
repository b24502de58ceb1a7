import Singa.Neuralnet.InnerProduct

/-!
# `PoolingLayer`

A place of the data is the maximum or the average of a patch of the source. The
maximum has a derivative where one element of the patch is larger than the
others, and there the gradient of the patch goes to this element.
-/

namespace Singa
set_option autoImplicit false

open Mshadow Finset

variable {α : Type}

/-- `PoolingProto_PoolMethod`. -/
inductive PoolMethod where
  | max
  | ave
  deriving DecidableEq, Repr

structure PoolingLayer where
  pool : PoolMethod
  kernel : ℕ
  stride : ℕ
  batchsize : ℕ
  channels : ℕ
  height : ℕ
  width : ℕ
  deriving DecidableEq, Repr

namespace PoolingLayer

variable (layer : PoolingLayer)

def pooledHeight : ℕ := (layer.height - layer.kernel) / layer.stride + 1

def pooledWidth : ℕ := (layer.width - layer.kernel) / layer.stride + 1

/-- `PoolingLayer::Setup`: the layer and its data. `pad_` is never set: it is what the memory has. Images smaller
than the kernel stop in `pool` at the latest. -/
def setup [Zero α] (pool : PoolMethod) (kernel stride : ℕ) (pad : Int) (srclayers : List (LayerBlob α)) :
    Run (PoolingLayer × LayerBlob α) :=
  match srclayers with
  | [src] =>
    if (kernel : Int) ≤ pad then .error .shape
    else
      match src.shape.reverse with
      | width :: height :: rest => do
        let layer : PoolingLayer := ⟨pool, kernel, stride, src.shape.headD 0,
          if rest.length < 2 then 1 else rest.headD 1, height, width⟩
        if rest = [] then .error .imageShape
        else if stride = 0 then .error .divZero
        else if height < kernel ∨ width < kernel then .error .tensorShape
        else
          let data ← LayerBlob.fresh [layer.batchsize, layer.channels, layer.pooledHeight, layer.pooledWidth]
          return (layer, data)
      | _ => .error .imageShape
  | _ => .error .srcLayers

/-- The blobs have the sizes that the layer was set up for; `data` stands for the gradient, too. `Tensor4` wants
images of four dimensions. -/
def Fits (src data : LayerBlob α) : Prop :=
  src.shape = [layer.batchsize, layer.channels, layer.height, layer.width] ∧
    data.shape = [layer.batchsize, layer.channels, layer.pooledHeight, layer.pooledWidth] ∧
    layer.kernel ≤ layer.height ∧ layer.kernel ≤ layer.width ∧ 0 < layer.stride

instance (src data : LayerBlob α) : Decidable (layer.Fits src data) := inferInstanceAs (Decidable (_ ∧ _))

variable [Field α] [LinearOrder α] (fltMax : α)

/-- `1.0f / (kernel_ * kernel_)`. -/
def share : α := 1 / (layer.kernel * layer.kernel)

/-- What `pool` makes of the source. -/
def pooled (src : Exp α) : Exp α :=
  match layer.pool with
  | .max => Exp.pool (Reducer.maximum fltMax) layer.kernel layer.stride layer.height layer.width src
  | .ave => fun i j => Exp.pool Reducer.sum layer.kernel layer.stride layer.height layer.width src i j * layer.share

/-- What `unpool` makes of the gradient. -/
def unpooled (src data grad : Exp α) : Exp α :=
  match layer.pool with
  | .max => Exp.unpool (Reducer.maximum fltMax) layer.kernel layer.stride layer.height layer.pooledHeight layer.pooledWidth
      src data grad
  | .ave => fun i j => Exp.unpool Reducer.sum layer.kernel layer.stride layer.height layer.pooledHeight layer.pooledWidth
      src data grad i j * layer.share

/-- `PoolingLayer::ComputeFeature`. -/
def computeFeature (src data : LayerBlob α) : Run (LayerBlob α) :=
  if layer.Fits src data then .ok (data.save layer.pooledWidth (layer.pooled fltMax (src.tensor layer.width)))
  else .error .tensorShape

/-- `PoolingLayer::ComputeGradient`. -/
def computeGradient (src data grad : LayerBlob α) (gsrc : Option (LayerBlob α)) : Run (LayerBlob α) :=
  match gsrc with
  | none => .error .nullPointer
  | some gsrc =>
    if layer.Fits src data ∧ grad.shape = data.shape ∧ gsrc.shape = src.shape then
      .ok (gsrc.save layer.width (layer.unpooled fltMax (src.tensor layer.width) (data.tensor layer.pooledWidth)
        (grad.tensor layer.pooledWidth)))
    else .error .tensorShape

omit [Field α] [LinearOrder α] in
theorem count_src {src data : LayerBlob α} (fits : layer.Fits src data) :
    src.count = layer.batchsize * layer.channels * layer.height * layer.width := by
  rw [LayerBlob.count, fits.1]
  simp [mul_assoc]

omit [Field α] [LinearOrder α] in
theorem count_data {src data : LayerBlob α} (fits : layer.Fits src data) :
    data.count = layer.batchsize * layer.channels * layer.pooledHeight * layer.pooledWidth := by
  rw [LayerBlob.count, fits.2.1]
  simp [mul_assoc]

/-- What `ComputeFeature` returns. -/
theorem computeFeature_ok {src data feature : LayerBlob α} (run : layer.computeFeature fltMax src data = .ok feature) :
    layer.Fits src data ∧ feature.shape = data.shape ∧
      ∀ i < layer.batchsize * layer.channels * layer.pooledHeight, ∀ j < layer.pooledWidth,
        feature.tensor layer.pooledWidth i j = layer.pooled fltMax (src.tensor layer.width) i j := by
  unfold computeFeature at run
  split at run
  · next fits =>
    cases run
    exact ⟨fits, rfl, fun i row j column => LayerBlob.tensor_save data _ (layer.count_data fits) row column⟩
  · cases run

/-- The element `(dy, dx)` of a patch: the place in the source. -/
def patchRow (c py dy : ℕ) : ℕ := c * layer.height + (py * layer.stride + dy)

def patchColumn (px dx : ℕ) : ℕ := px * layer.stride + dx

/-- One element of the patch is larger than `-FLT_MAX` and than the others. -/
def Peak (src : Exp α) (c py px dy dx : ℕ) : Prop :=
  (dy < layer.kernel ∧ dx < layer.kernel ∧ -fltMax < src (layer.patchRow c py dy) (layer.patchColumn px dx)) ∧
    ∀ dy' < layer.kernel, ∀ dx' < layer.kernel, (dy', dx') ≠ (dy, dx) →
      src (layer.patchRow c py dy') (layer.patchColumn px dx') < src (layer.patchRow c py dy) (layer.patchColumn px dx)

/-- Every patch has such an element. -/
def Peaks (src : Exp α) : Prop :=
  ∀ c < layer.batchsize * layer.channels, ∀ py < layer.pooledHeight, ∀ px < layer.pooledWidth,
    ∃ dy dx, layer.Peak fltMax src c py px dy dx

variable {layer fltMax}

/-- The maximum of a patch is at its peak. -/
theorem Peak.pool {src : Exp α} {c py px dy dx : ℕ} (peak : layer.Peak fltMax src c py px dy dx)
    (tall : layer.kernel ≤ layer.height) (wide : layer.kernel ≤ layer.width) (row : py < layer.pooledHeight)
    (column : px < layer.pooledWidth) :
    Exp.pool (Reducer.maximum fltMax) layer.kernel layer.stride layer.height layer.width src (c * layer.pooledHeight + py) px =
      src (layer.patchRow c py dy) (layer.patchColumn px dx) := by
  obtain ⟨⟨low, low', above⟩, largest⟩ := peak
  obtain ⟨-, all, found⟩ := pool_maximum fltMax tall wide src row column (c := c)
  refine le_antisymm ?_ (all dy low dx low')
  rcases found with least | ⟨dy', low, dx', low', same⟩
  · exact least.trans_le above.le
  · by_cases here : (dy', dx') = (dy, dx)
    · cases here
      exact same.le
    · exact same.trans_le (largest dy' low dx' low' here).le

variable (layer) in
/-- The velocity of what a patch is reduced to: `PartialGrad` weighs those of its elements. -/
def velocity (r : Reducer α) (src pooled d : Exp α) : Exp α := fun i j =>
  ∑ dy ∈ range layer.kernel, ∑ dx ∈ range layer.kernel,
    r.partialGrad (src (layer.patchRow (i / layer.pooledHeight) (i % layer.pooledHeight) dy) (layer.patchColumn j dx)) (pooled i j) *
      d (layer.patchRow (i / layer.pooledHeight) (i % layer.pooledHeight) dy) (layer.patchColumn j dx)

omit [LinearOrder α] in
/-- **`unpool` is the transpose of the velocity.** -/
theorem unpool_transposed {src data : LayerBlob α} (fits : layer.Fits src data) (r : Reducer α) (s pooled grad d : Exp α) :
    Exp.pairing (layer.batchsize * layer.channels * layer.height) layer.width
        (Exp.unpool r layer.kernel layer.stride layer.height layer.pooledHeight layer.pooledWidth s pooled grad) d =
      Exp.pairing (layer.batchsize * layer.channels * layer.pooledHeight) layer.pooledWidth grad (layer.velocity r s pooled d) := by
  obtain ⟨-, -, tall, wide, pos⟩ := fits
  rw [pairing_unpool r pos tall wide (show layer.pooledHeight = _ from rfl) (show layer.pooledWidth = _ from rfl)]
  unfold Exp.pairing
  rw [sum_images (layer.batchsize * layer.channels) layer.pooledHeight layer.pooledWidth]
  refine sum_congr rfl fun c _ => sum_congr rfl fun py row => sum_congr rfl fun px _ => ?_
  unfold velocity
  rw [Grid.number_div (mem_range.mp row), Grid.number_mod (mem_range.mp row)]
  rfl

/-! ## Patches that move -/

section Moving

open Filter

variable {layer : PoolingLayer} {fltMax t : ℝ} {p : ℝ → Exp ℝ} {dp : Exp ℝ} {c py px dy dx : ℕ}

/-- A peak stays one for a while. -/
theorem Peak.eventually (moves : Exp.Moves t p dp) (peak : layer.Peak fltMax (p t) c py px dy dx) :
    ∀ᶠ s in nhds t, layer.Peak fltMax (p s) c py px dy dx := by
  obtain ⟨⟨low, low', above⟩, largest⟩ := peak
  have continuous := fun i j => (moves i j).continuousAt
  have stays : ∀ᶠ s in nhds t, -fltMax < p s (layer.patchRow c py dy) (layer.patchColumn px dx) :=
    continuousAt_const.eventually_lt (continuous _ _) above
  have others : ∀ᶠ s in nhds t, ∀ dy' ∈ Set.Iio layer.kernel, ∀ dx' ∈ Set.Iio layer.kernel, (dy', dx') ≠ (dy, dx) →
      p s (layer.patchRow c py dy') (layer.patchColumn px dx') < p s (layer.patchRow c py dy) (layer.patchColumn px dx) := by
    refine (eventually_all_finite (Set.finite_Iio _)).mpr fun dy' low => (eventually_all_finite (Set.finite_Iio _)).mpr
      fun dx' low' => eventually_imp_distrib_left.mpr fun other => ?_
    exact (continuous _ _).eventually_lt (continuous _ _) (largest dy' low dx' low' other)
  filter_upwards [stays, others] with s above largest
  exact ⟨⟨low, low', above⟩, largest⟩

/-- The maximum of a patch moves with its peak. -/
theorem moves_maximum (moves : Exp.Moves t p dp) (tall : layer.kernel ≤ layer.height) (wide : layer.kernel ≤ layer.width)
    (row : py < layer.pooledHeight) (column : px < layer.pooledWidth) (peak : layer.Peak fltMax (p t) c py px dy dx)
    (pooled : Exp ℝ) (here : pooled (c * layer.pooledHeight + py) px = Exp.pool (Reducer.maximum fltMax) layer.kernel
      layer.stride layer.height layer.width (p t) (c * layer.pooledHeight + py) px) :
    HasDerivAt (fun s => Exp.pool (Reducer.maximum fltMax) layer.kernel layer.stride layer.height layer.width (p s)
        (c * layer.pooledHeight + py) px)
      (layer.velocity (Reducer.maximum fltMax) (p t) pooled dp (c * layer.pooledHeight + py) px) t := by
  have same : layer.velocity (Reducer.maximum fltMax) (p t) pooled dp (c * layer.pooledHeight + py) px =
      dp (layer.patchRow c py dy) (layer.patchColumn px dx) := by
    unfold velocity
    rw [Grid.number_div row, Grid.number_mod row, here, peak.pool tall wide row column]
    obtain ⟨⟨low, low', -⟩, largest⟩ := peak
    rw [sum_eq_single_of_mem dy (mem_range.mpr low) fun dy' below other => sum_eq_zero fun dx' below' => ?_,
      sum_eq_single_of_mem dx (mem_range.mpr low') fun dx' below' other => ?_]
    · simp [Reducer.maximum]
    · have := largest dy low dx' (mem_range.mp below') fun here => other (Prod.ext_iff.mp here).2
      simp [Reducer.maximum, this.ne]
    · have := largest dy' (mem_range.mp below) dx' (mem_range.mp below') fun here => other (Prod.ext_iff.mp here).1
      simp [Reducer.maximum, this.ne]
  rw [same]
  refine (moves _ _).congr_of_eventuallyEq ?_
  filter_upwards [peak.eventually moves] with s peak
  exact peak.pool tall wide row column

theorem moves_sum (moves : Exp.Moves t p dp) (tall : layer.kernel ≤ layer.height) (wide : layer.kernel ≤ layer.width)
    (pooled : Exp ℝ) (row : py < layer.pooledHeight) (column : px < layer.pooledWidth) :
    HasDerivAt (fun s => Exp.pool Reducer.sum layer.kernel layer.stride layer.height layer.width (p s)
      (c * layer.pooledHeight + py) px) (layer.velocity Reducer.sum (p t) pooled dp (c * layer.pooledHeight + py) px) t := by
  unfold velocity
  rw [Grid.number_div row, Grid.number_mod row]
  have sums : (fun s => Exp.pool Reducer.sum layer.kernel layer.stride layer.height layer.width (p s)
      (c * layer.pooledHeight + py) px) = fun s => ∑ dy ∈ range layer.kernel, ∑ dx ∈ range layer.kernel,
        p s (layer.patchRow c py dy) (layer.patchColumn px dx) :=
    funext fun s => pool_sum tall wide (p s) row column
  rw [sums]
  refine HasDerivAt.fun_sum fun dy _ => HasDerivAt.fun_sum fun dx _ => ?_
  rw [show Reducer.sum.partialGrad _ _ = (1 : ℝ) from rfl, one_mul]
  exact moves _ _

end Moving

/-- **The gradient of a pooling layer is the transpose of its derivative**; with maxima, where every patch has a peak. -/
theorem backprop (layer : PoolingLayer) (fltMax : ℝ) {t : ℝ} {src feature : ℝ → LayerBlob ℝ} {dx : ℕ → ℝ} {data : LayerBlob ℝ}
    (run : ∀ s, layer.computeFeature fltMax (src s) data = .ok (feature s)) (moves : BlobMoves t src dx)
    (peaks : layer.pool = .max → layer.Peaks fltMax ((src t).tensor layer.width)) :
    ∃ dy, BlobMoves t feature dy ∧ ∀ (grad : LayerBlob ℝ) (gsrc : Option (LayerBlob ℝ)) (gsrc' : LayerBlob ℝ),
      layer.computeGradient fltMax (src t) (feature t) grad gsrc = .ok gsrc' →
      Pairing.pairing grad.count grad.dptr dy = Pairing.pairing gsrc'.count gsrc'.dptr dx := by
  have size : ∀ s, (feature s).count = layer.batchsize * layer.channels * layer.pooledHeight * layer.pooledWidth := by
    intro s
    obtain ⟨fits, shape, -⟩ := layer.computeFeature_ok fltMax (run s)
    rw [LayerBlob.count, shape]
    exact layer.count_data fits
  obtain ⟨fits, shape, here⟩ := layer.computeFeature_ok fltMax (run t)
  obtain ⟨-, -, tall, wide, -⟩ := id fits
  -- the rows of the data are counted by the images, and in each of them by the rows of patches
  have cells : ∀ i < layer.batchsize * layer.channels * layer.pooledHeight,
      i / layer.pooledHeight < layer.batchsize * layer.channels ∧ i % layer.pooledHeight < layer.pooledHeight ∧
        i / layer.pooledHeight * layer.pooledHeight + i % layer.pooledHeight = i := by
    intro i row
    obtain ⟨number, column⟩ := Grid.cell_of_number i (show 0 < layer.pooledHeight from Nat.succ_pos _)
    exact ⟨Grid.row_lt row, column, number⟩
  have source := moves.tensor layer.width
  obtain ⟨dp, moving, transposed⟩ : ∃ dp : Exp ℝ,
      (∀ i < layer.batchsize * layer.channels * layer.pooledHeight, ∀ j < layer.pooledWidth,
        HasDerivAt (fun s => layer.pooled fltMax ((src s).tensor layer.width) i j) (dp i j) t) ∧
      ∀ grad : Exp ℝ, Exp.pairing (layer.batchsize * layer.channels * layer.pooledHeight) layer.pooledWidth grad dp =
        Exp.pairing (layer.batchsize * layer.channels * layer.height) layer.width
          (layer.unpooled fltMax ((src t).tensor layer.width) ((feature t).tensor layer.pooledWidth) grad)
          fun y x => dx (y * layer.width + x) := by
    unfold pooled at here ⊢
    unfold unpooled
    rcases method : layer.pool with _ | _
    · simp only [method] at here ⊢
      refine ⟨layer.velocity (Reducer.maximum fltMax) ((src t).tensor layer.width) ((feature t).tensor layer.pooledWidth)
        fun y x => dx (y * layer.width + x), fun i row j column => ?_, fun grad => (unpool_transposed fits _ _ _ _ _).symm⟩
      obtain ⟨image, below, number⟩ := cells i row
      obtain ⟨dy, dx, peak⟩ := peaks method _ image _ below j column
      have := moves_maximum source tall wide below column peak ((feature t).tensor layer.pooledWidth)
        (by rw [number]; exact here i row j column)
      rwa [number] at this
    · simp only [method] at here ⊢
      refine ⟨fun i j => layer.velocity Reducer.sum ((src t).tensor layer.width) ((feature t).tensor layer.pooledWidth)
        (fun y x => dx (y * layer.width + x)) i j * layer.share, fun i row j column => ?_, fun grad => ?_⟩
      · obtain ⟨image, below, number⟩ := cells i row
        have := moves_sum source tall wide ((feature t).tensor layer.pooledWidth) below column (c := i / layer.pooledHeight)
        rw [number] at this
        exact this.mul_const _
      · rw [Exp.pairing_mul_right, Exp.pairing_mul_left, unpool_transposed fits]
  obtain ⟨dy, moves, whole⟩ := BlobMoves.of_tensor size (fun s => (layer.computeFeature_ok fltMax (run s)).2.2) moving
  refine ⟨dy, moves, fun grad gsrc gsrc' back => ?_⟩
  unfold computeGradient at back
  cases gsrc with
  | none => cases back
  | some gsrc =>
    dsimp only at back
    split at back
    · next fits' =>
      obtain ⟨fits', sameGrad, sameSrc⟩ := fits'
      cases back
      have sizeGrad : grad.count = layer.batchsize * layer.channels * layer.pooledHeight * layer.pooledWidth :=
        (congrArg List.prod sameGrad).trans (layer.count_data fits')
      have sizeSrc : gsrc.count = layer.batchsize * layer.channels * layer.height * layer.width :=
        (congrArg List.prod sameSrc).trans (layer.count_src fits')
      rw [sizeGrad, whole, transposed, LayerBlob.count_save, sizeSrc, pairing_tensor]
      exact Exp.pairing_congr (fun i row x column => (LayerBlob.tensor_save gsrc _ sizeSrc row column).symm) fun _ _ _ _ => rfl
    · cases back

end PoolingLayer
end Singa
