import Singa.Neuralnet.InnerProduct

/-!
# `ConvolutionLayer`

The images of a batch are unpacked one after the other into the columns of a
matrix, and the filters are the rows of the weight. The gradient of the source is
packed back from the columns and cropped.
-/

namespace Singa
set_option autoImplicit false

open Mshadow Finset

variable {α : Type}

structure ConvolutionLayer where
  kernel : ℕ
  pad : ℕ
  stride : ℕ
  numFilters : ℕ
  batchsize : ℕ
  channels : ℕ
  height : ℕ
  width : ℕ
  deriving DecidableEq, Repr

namespace ConvolutionLayer

variable (layer : ConvolutionLayer)

/-- The image with its border. -/
def paddedHeight : ℕ := layer.height + layer.pad * 2

def paddedWidth : ℕ := layer.width + layer.pad * 2

def convHeight : ℕ := (layer.paddedHeight - layer.kernel) / layer.stride + 1

def convWidth : ℕ := (layer.paddedWidth - layer.kernel) / layer.stride + 1

def colHeight : ℕ := layer.channels * layer.kernel * layer.kernel

def colWidth : ℕ := layer.convHeight * layer.convWidth

/-- `ConvolutionLayer::Setup`: the layer, its data, and weight and bias. Images smaller than the kernel, whose
sizes here are no numbers of places, stop in `unpack_patch2col` at the latest. -/
def setup [Zero α] (kernel pad stride numFilters : ℕ) (partitionDim : Int) (npartitions : ℕ) (srclayers : List (LayerBlob α)) :
    Run (ConvolutionLayer × LayerBlob α × List (LayerBlob α)) :=
  match srclayers with
  | [] => .error .range
  | src :: _ =>
    if kernel = 0 then .error .shape
    else
      match src.shape.reverse with
      | width :: height :: rest => do
        let layer : ConvolutionLayer := ⟨kernel, pad, stride, partitioned partitionDim npartitions numFilters,
          src.shape.headD 0, if rest.length < 2 then 1 else rest.headD 1, height, width⟩
        if rest = [] then .error .imageShape
        else if stride = 0 then .error .divZero
        else if layer.paddedHeight < kernel ∨ layer.paddedWidth < kernel then .error .tensorShape
        else
          let data ← LayerBlob.fresh [layer.batchsize, layer.numFilters, layer.convHeight, layer.convWidth]
          let weight ← paramBlob [layer.numFilters, layer.colHeight]
          let bias ← paramBlob [layer.numFilters]
          return (layer, data, [weight, bias])
      | _ => .error .imageShape

/-- The blobs have the sizes that the layer was set up for; `data` stands for the gradient, too. `Tensor4` wants
images of four dimensions. -/
def Fits (weight bias src data : LayerBlob α) : Prop :=
  src.shape = [layer.batchsize, layer.channels, layer.height, layer.width] ∧
    weight.count = layer.numFilters * layer.colHeight ∧ bias.count = layer.numFilters ∧
    data.count = layer.batchsize * layer.numFilters * layer.colWidth ∧
    layer.kernel ≤ layer.paddedHeight ∧ layer.kernel ≤ layer.paddedWidth ∧ 0 < layer.stride

instance (weight bias src data : LayerBlob α) : Decidable (layer.Fits weight bias src data) := inferInstanceAs (Decidable (_ ∧ _))

/-- `col`, unpacked from the image `src[n]`. -/
def col [Zero α] (src : Exp α) (n : ℕ) : Exp α :=
  let image := src.sub (layer.channels * layer.height) n
  Exp.unpackPatch2col layer.kernel layer.stride layer.channels layer.paddedHeight layer.paddedWidth
    (if 0 < layer.pad then Exp.pad layer.pad layer.height layer.width image else image)

/-- `crop(pack_col2patch(gcol, padshp, kernel_, stride_), imgshp)`. -/
def uncol [Zero α] [Add α] (gcol : Exp α) : Exp α :=
  Exp.crop layer.paddedHeight layer.paddedWidth layer.height layer.width
    (Exp.packCol2patch layer.kernel layer.stride layer.channels layer.paddedHeight layer.paddedWidth gcol)

variable [CommSemiring α]

/-- `ConvolutionLayer::ComputeFeature`. -/
def computeFeature (weight bias src data : LayerBlob α) : Run (LayerBlob α) :=
  if layer.Fits weight bias src data then
    let data := loop 0 layer.batchsize (fun data n => data.saveRows layer.colWidth (n * layer.numFilters) layer.numFilters
      (Exp.dot layer.colHeight (weight.tensor layer.colHeight) (layer.col (src.tensor layer.width) n))) data
    .ok (data.save layer.colWidth fun y x => data.tensor layer.colWidth y x + Exp.broadcast1 layer.numFilters bias.dptr y x)
  else .error .tensorShape

/-- `gweight += dot(grad[n], col.T())`. -/
def addWeight (src grad gweight : LayerBlob α) (n : ℕ) : LayerBlob α :=
  gweight.save layer.colHeight fun i j => gweight.tensor layer.colHeight i j +
    Exp.dot layer.colWidth ((grad.tensor layer.colWidth).sub layer.numFilters n) (layer.col (src.tensor layer.width) n).T i j

/-- `gcol = dot(weight.T(), grad[n])`, packed into `gsrc[n]`. -/
def packSrc (weight grad gsrc : LayerBlob α) (n : ℕ) : LayerBlob α :=
  gsrc.saveRows layer.width (n * (layer.channels * layer.height)) (layer.channels * layer.height)
    (layer.uncol (Exp.dot layer.numFilters (weight.tensor layer.colHeight).T
      ((grad.tensor layer.colWidth).sub layer.numFilters n)))

/-- `ConvolutionLayer::ComputeGradient`: the gradients of weight and bias, and of the source if it has one. -/
def computeGradient (weight bias src grad gweight gbias : LayerBlob α) (gsrc : Option (LayerBlob α)) :
    Run (LayerBlob α × LayerBlob α × Option (LayerBlob α)) :=
  if layer.Fits weight bias src grad ∧ gweight.count = weight.count ∧ gbias.count = bias.count ∧
      ∀ g ∈ gsrc, g.count = src.count then
    let gbias := gbias.save layer.numFilters fun _ =>
      Exp.sumallExceptDim1 layer.batchsize layer.numFilters layer.colWidth (grad.tensor layer.colWidth)
    let gweight := gweight.save layer.colHeight fun _ _ => 0
    let (gweight, gsrc) := loop 0 layer.batchsize (fun (state : LayerBlob α × Option (LayerBlob α)) n =>
      (layer.addWeight src grad state.1 n, state.2.map fun gsrc => layer.packSrc weight grad gsrc n)) (gweight, gsrc)
    .ok (gweight, gbias, gsrc)
  else .error .tensorShape

/-! ## The feature -/

omit [CommSemiring α] in
theorem count_src {weight bias src data : LayerBlob α} (fits : layer.Fits weight bias src data) :
    src.count = layer.batchsize * (layer.channels * layer.height) * layer.width := by
  rw [LayerBlob.count, fits.1]
  simp [mul_assoc]

/-- What `ComputeFeature` returns, filter by filter. -/
theorem computeFeature_ok {weight bias src data feature : LayerBlob α}
    (run : layer.computeFeature weight bias src data = .ok feature) :
    layer.Fits weight bias src data ∧ feature.shape = data.shape ∧
      ∀ n < layer.batchsize, ∀ f < layer.numFilters, ∀ j < layer.colWidth,
        feature.tensor layer.colWidth (n * layer.numFilters + f) j =
          Exp.dot layer.colHeight (weight.tensor layer.colHeight) (layer.col (src.tensor layer.width) n) f j + bias.dptr f := by
  unfold computeFeature at run
  split at run
  · next fits =>
    obtain ⟨-, -, -, size, -⟩ := id fits
    cases run
    obtain ⟨shape, filled⟩ := LayerBlob.loop_saveRows data size (fun n => Exp.dot layer.colHeight
      (weight.tensor layer.colHeight) (layer.col (src.tensor layer.width) n)) layer.batchsize le_rfl
    refine ⟨fits, shape, fun n image f filter j column => ?_⟩
    rw [LayerBlob.tensor_save _ _ (by rw [LayerBlob.count, shape]; exact size) (Grid.number_lt image filter) column,
      filled n image f filter j column, Exp.broadcast1, Nat.div_one, Grid.number_mod filter]
  · cases run

/-- A column of `col` is a patch of the image, with zeros outside. -/
theorem col_at {weight bias src data : LayerBlob α} (fits : layer.Fits weight bias src data) (image : Exp α)
    {n c py px dy dx : ℕ} (row : py < layer.convHeight) (column : px < layer.convWidth)
    (offset : dy < layer.kernel) (offset' : dx < layer.kernel) :
    layer.col image n ((c * layer.kernel + dy) * layer.kernel + dx) (py * layer.convWidth + px) =
      if (layer.pad ≤ py * layer.stride + dy ∧ py * layer.stride + dy < layer.pad + layer.height) ∧
          layer.pad ≤ px * layer.stride + dx ∧ px * layer.stride + dx < layer.pad + layer.width
      then image (n * (layer.channels * layer.height) + (c * layer.height + (py * layer.stride + dy - layer.pad)))
        (px * layer.stride + dx - layer.pad) else 0 := by
  obtain ⟨-, -, -, -, tall, wide, -⟩ := fits
  have inside := patch_inside tall row
  have inside' := patch_inside wide column
  have place := @unpackPatch2col_at α layer.kernel layer.stride layer.channels _ _ _ tall wide
    (if 0 < layer.pad then Exp.pad layer.pad layer.height layer.width (image.sub (layer.channels * layer.height) n)
      else image.sub (layer.channels * layer.height) n) c 0 py px dy dx row column offset offset'
  rw [zero_mul, zero_mul, zero_add, zero_add] at place
  unfold col
  refine place.trans ?_
  split
  · exact pad_at _ (show _ < layer.paddedHeight by omega)
  · next none =>
    obtain zero : layer.pad = 0 := by omega
    unfold paddedHeight paddedWidth at *
    rw [zero] at inside inside' ⊢
    rw [if_pos (by omega)]
    rfl

/-- **The data are the convolution**: every filter is moved over the padded image by the stride, and its weights times
the pixels below are added up, over all channels. -/
theorem computeFeature_convolves {weight bias src data feature : LayerBlob α}
    (run : layer.computeFeature weight bias src data = .ok feature) {n f py px : ℕ} (image : n < layer.batchsize)
    (filter : f < layer.numFilters) (row : py < layer.convHeight) (column : px < layer.convWidth) :
    feature.dptr (((n * layer.numFilters + f) * layer.convHeight + py) * layer.convWidth + px) =
      (∑ c ∈ range layer.channels, ∑ dy ∈ range layer.kernel, ∑ dx ∈ range layer.kernel,
        weight.dptr (((f * layer.channels + c) * layer.kernel + dy) * layer.kernel + dx) *
          if (layer.pad ≤ py * layer.stride + dy ∧ py * layer.stride + dy < layer.pad + layer.height) ∧
              layer.pad ≤ px * layer.stride + dx ∧ px * layer.stride + dx < layer.pad + layer.width
          then src.dptr (((n * layer.channels + c) * layer.height + (py * layer.stride + dy - layer.pad)) * layer.width +
            (px * layer.stride + dx - layer.pad)) else 0) + bias.dptr f := by
  obtain ⟨fits, -, filled⟩ := layer.computeFeature_ok run
  have here := filled n image f filter (py * layer.convWidth + px) (Grid.number_lt row column)
  unfold LayerBlob.tensor at here
  have place : ((n * layer.numFilters + f) * layer.convHeight + py) * layer.convWidth + px =
      (n * layer.numFilters + f) * layer.colWidth + (py * layer.convWidth + px) := by unfold colWidth; ring
  rw [place, here]
  congr 1
  unfold Exp.dot colHeight
  rw [Pairing.sum_grid, Pairing.sum_grid]
  refine sum_congr rfl fun c _ => sum_congr rfl fun dy offset => sum_congr rfl fun dx offset' => ?_
  rw [layer.col_at fits _ row column (mem_range.mp offset) (mem_range.mp offset')]
  have weights : f * (layer.channels * layer.kernel * layer.kernel) + ((c * layer.kernel + dy) * layer.kernel + dx) =
      ((f * layer.channels + c) * layer.kernel + dy) * layer.kernel + dx := by ring
  have pixels : ∀ y, n * (layer.channels * layer.height) + (c * layer.height + y) =
      (n * layer.channels + c) * layer.height + y := fun y => by ring
  dsimp only
  rw [weights, pixels]

/-! ## The gradients -/

/-- Padding by nothing changes nothing. -/
theorem pad_of_pos {height width rows : ℕ} (pad : ℕ) (image : Exp α) {i x : ℕ} (row : i < rows * (height + pad * 2))
    (column : x < width + pad * 2) :
    (if 0 < pad then Exp.pad pad height width image else image) i x = Exp.pad pad height width image i x := by
  split
  · rfl
  · next none =>
    obtain rfl : pad = 0 := by omega
    simp only [zero_mul, add_zero] at row column
    have pos : 0 < height := Nat.pos_of_ne_zero fun zero => by simp [zero] at row
    unfold Exp.pad
    simp only [zero_mul, add_zero, Nat.not_lt_zero, or_self, if_false, Nat.sub_zero]
    rw [if_pos ⟨Nat.mod_lt i pos, column⟩, Nat.div_add_mod']

/-- **Packing and cropping is the transpose of padding and unpacking.** -/
theorem col_transposed {weight bias src data : LayerBlob α} (fits : layer.Fits weight bias src data) (m d : Exp α) (n : ℕ) :
    Exp.pairing layer.colHeight layer.colWidth m (layer.col d n) =
      Exp.pairing (layer.channels * layer.height) layer.width (layer.uncol m) (d.sub (layer.channels * layer.height) n) := by
  obtain ⟨-, -, -, -, tall, wide, pos⟩ := fits
  have pack := @packCol2patch_transposed α _ layer.kernel layer.stride layer.channels _ _ pos tall wide 1
    (if 0 < layer.pad then Exp.pad layer.pad layer.height layer.width (d.sub (layer.channels * layer.height) n)
      else d.sub (layer.channels * layer.height) n) m
  rw [one_mul, one_mul] at pack
  refine pack.trans ?_
  refine (Exp.pairing_congr (fun _ _ _ _ => rfl) fun i row x column =>
    pad_of_pos layer.pad (d.sub (layer.channels * layer.height) n) row column).trans ?_
  exact crop_transposed layer.channels _ _

/-- What `ComputeGradient` returns. -/
theorem computeGradient_ok {weight bias src grad gweight gbias gweight' gbias' : LayerBlob α} {gsrc gsrc' : Option (LayerBlob α)}
    (run : layer.computeGradient weight bias src grad gweight gbias gsrc = .ok (gweight', gbias', gsrc')) :
    layer.Fits weight bias src grad ∧ gweight'.count = layer.numFilters * layer.colHeight ∧ gbias'.count = layer.numFilters ∧
      (∀ f < layer.numFilters, ∀ i < layer.colHeight, gweight'.tensor layer.colHeight f i =
        ∑ n ∈ range layer.batchsize, Exp.dot layer.colWidth ((grad.tensor layer.colWidth).sub layer.numFilters n)
          (layer.col (src.tensor layer.width) n).T f i) ∧
      (∀ f < layer.numFilters, gbias'.dptr f =
        Exp.sumallExceptDim1 layer.batchsize layer.numFilters layer.colWidth (grad.tensor layer.colWidth) f) ∧
      (gsrc' = none ↔ gsrc = none) ∧
      ∀ g ∈ gsrc', g.count = layer.batchsize * (layer.channels * layer.height) * layer.width ∧
        ∀ n < layer.batchsize, ∀ i < layer.channels * layer.height, ∀ x < layer.width,
          g.tensor layer.width (n * (layer.channels * layer.height) + i) x =
            layer.uncol (Exp.dot layer.numFilters (weight.tensor layer.colHeight).T
              ((grad.tensor layer.colWidth).sub layer.numFilters n)) i x := by
  unfold computeGradient at run
  split at run
  · next fits =>
    obtain ⟨fits, sameWeight, sameBias, sameSrc⟩ := fits
    have wholeWeight := sameWeight.trans fits.2.1
    have wholeBias := sameBias.trans fits.2.2.1
    dsimp only at run
    rw [loop_pair (layer.addWeight src grad) (fun (gsrc : Option (LayerBlob α)) n =>
      gsrc.map fun g => layer.packSrc weight grad g n), loop_map] at run
    cases run
    have start : (gweight.save layer.colHeight fun _ _ => 0).count = layer.numFilters * layer.colHeight := wholeWeight
    refine ⟨fits, ?_, wholeBias, fun f filter i column => ?_, fun f filter => ?_, Option.map_eq_none_iff, fun g mem => ?_⟩
    · exact (congrArg List.prod (LayerBlob.loop_save_add _ _ _ _)).trans start
    · refine (LayerBlob.tensor_loop_save_add _ start _ filter column _).trans ?_
      rw [LayerBlob.tensor_save gweight _ wholeWeight filter column, zero_add]
    · rw [LayerBlob.dptr_save gbias _ _ (wholeBias ▸ filter), Nat.mod_eq_of_lt filter]
    · obtain ⟨g, there, rfl⟩ := Option.mem_map.mp mem
      have size := (sameSrc g there).trans (layer.count_src fits)
      obtain ⟨shape, filled⟩ := LayerBlob.loop_saveRows g size (fun n => layer.uncol (Exp.dot layer.numFilters
        (weight.tensor layer.colHeight).T ((grad.tensor layer.colWidth).sub layer.numFilters n))) layer.batchsize le_rfl
      exact ⟨(congrArg List.prod shape).trans size, filled⟩
  · cases run

/-- The columns move with the images. -/
theorem moves_col {t : ℝ} {p : ℝ → Exp ℝ} {dp : Exp ℝ} (moves : Exp.Moves t p dp) (n : ℕ) :
    Exp.Moves t (fun s => layer.col (p s) n) (layer.col dp n) := by
  unfold col
  dsimp only
  split
  · exact ((moves.sub _ n).pad _ _ _).unpackPatch2col _ _ _ _ _
  · exact (moves.sub _ n).unpackPatch2col _ _ _ _ _

/-- **The gradients of a convolution layer are the transpose of its derivative**: however the parameters and the source
move, the data move so that its gradient pairs with their velocity like the gradients with those of the others. -/
theorem backprop {t : ℝ} {weight bias src : ℝ → LayerBlob ℝ} {dw db dx : ℕ → ℝ} {data : LayerBlob ℝ} {feature : ℝ → LayerBlob ℝ}
    (run : ∀ s, layer.computeFeature (weight s) (bias s) (src s) data = .ok (feature s))
    (movesWeight : BlobMoves t weight dw) (movesBias : BlobMoves t bias db) (movesSrc : BlobMoves t src dx) :
    ∃ dy, BlobMoves t feature dy ∧ ∀ (grad gweight gbias : LayerBlob ℝ) (gsrc : Option (LayerBlob ℝ))
      (gweight' gbias' : LayerBlob ℝ) (gsrc' : Option (LayerBlob ℝ)),
      layer.computeGradient (weight t) (bias t) (src t) grad gweight gbias gsrc = .ok (gweight', gbias', gsrc') →
      (gsrc = none → dx = fun _ => 0) →
      Pairing.pairing grad.count grad.dptr dy = paired gsrc' dx + Pairing.pairing gweight'.count gweight'.dptr dw +
        Pairing.pairing gbias'.count gbias'.dptr db := by
  have size : ∀ s, (feature s).count = layer.batchsize * layer.numFilters * layer.colWidth := by
    intro s
    obtain ⟨⟨-, -, -, whole, -⟩, shape, -⟩ := layer.computeFeature_ok (run s)
    rw [LayerBlob.count, shape]
    exact whole
  have product := fun n => (movesWeight.tensor layer.colHeight).dot (layer.moves_col (movesSrc.tensor layer.width) n) layer.colHeight
  have same : ∀ s, ∀ y < layer.batchsize * layer.numFilters, ∀ x < layer.colWidth,
      (feature s).tensor layer.colWidth y x = Exp.dot layer.colHeight ((weight s).tensor layer.colHeight)
        (layer.col ((src s).tensor layer.width) (y / layer.numFilters)) (y % layer.numFilters) x +
          Exp.broadcast1 layer.numFilters (bias s).dptr y x := by
    intro s y row x column
    have pos : 0 < layer.numFilters := Nat.pos_of_ne_zero fun zero => by simp [zero] at row
    obtain ⟨number, filter⟩ := Grid.cell_of_number y pos
    have := (layer.computeFeature_ok (run s)).2.2 _ (Grid.row_lt row) _ filter x column
    rw [number] at this
    rw [this, Exp.broadcast1, Nat.div_one]
  obtain ⟨dy, moves, whole⟩ := BlobMoves.of_tensor size same fun y _ x _ =>
    (product (y / layer.numFilters) (y % layer.numFilters) x).add (Exp.Moves.broadcast1 movesBias layer.numFilters y x)
  refine ⟨dy, moves, fun grad gweight gbias gsrc gweight' gbias' gsrc' back still => ?_⟩
  obtain ⟨fits, sizeWeight, sizeBias, whereWeight, whereBias, hasSrc, whereSrc⟩ := layer.computeGradient_ok back
  -- image by image, the velocity is a product in which the weight or the columns move, and the bias
  have source : (∑ n ∈ range layer.batchsize, Exp.pairing layer.numFilters layer.colWidth
      ((grad.tensor layer.colWidth).sub layer.numFilters n) (Exp.dot layer.colHeight ((weight t).tensor layer.colHeight)
        (layer.col (fun y x => dx (y * layer.width + x)) n))) = paired gsrc' dx := by
    cases gsrc' with
    | none =>
      have zero : ∀ n, layer.col (fun y x => dx (y * layer.width + x)) n = fun _ _ => 0 := by
        intro n
        rw [still (hasSrc.mp rfl)]
        unfold col Exp.unpackPatch2col Exp.pad Exp.sub
        simp
      simp only [zero]
      unfold Exp.pairing Exp.dot paired
      simp
    | some g =>
      obtain ⟨sizeSrc, filled⟩ := whereSrc g rfl
      rw [paired, sizeSrc, pairing_tensor, Exp.pairing_images]
      refine sum_congr rfl fun n image => ?_
      rw [pairing_dot_right, layer.col_transposed fits]
      exact Exp.pairing_congr (fun i row x column => (filled n (mem_range.mp image) i row x column).symm) fun _ _ _ _ => rfl
  have weights : (∑ n ∈ range layer.batchsize, Exp.pairing layer.numFilters layer.colWidth
      ((grad.tensor layer.colWidth).sub layer.numFilters n) (Exp.dot layer.colHeight (fun y x => dw (y * layer.colHeight + x))
        (layer.col ((src t).tensor layer.width) n))) = Pairing.pairing gweight'.count gweight'.dptr dw := by
    rw [sizeWeight, pairing_tensor]
    rw [Exp.pairing_congr whereWeight fun _ _ _ _ => rfl, Exp.pairing_sum]
    exact sum_congr rfl fun n _ => pairing_dot_left _ _ _ _ _ _
  have biases : Exp.pairing (layer.batchsize * layer.numFilters) layer.colWidth (grad.tensor layer.colWidth)
      (Exp.broadcast1 layer.numFilters db) = Pairing.pairing gbias'.count gbias'.dptr db := by
    rw [pairing_broadcast1, sizeBias]
    exact Pairing.pairing_congr (fun f filter => (whereBias f filter).symm) fun _ _ => rfl
  have split : Exp.pairing (layer.batchsize * layer.numFilters) layer.colWidth (grad.tensor layer.colWidth) (fun y x =>
      Exp.dot layer.colHeight (fun y x => dw (y * layer.colHeight + x))
          (layer.col ((src t).tensor layer.width) (y / layer.numFilters)) (y % layer.numFilters) x +
        Exp.dot layer.colHeight ((weight t).tensor layer.colHeight)
          (layer.col (fun y x => dx (y * layer.width + x)) (y / layer.numFilters)) (y % layer.numFilters) x) =
      Pairing.pairing gweight'.count gweight'.dptr dw + paired gsrc' dx := by
    rw [Exp.pairing_images, ← weights, ← source, ← sum_add_distrib]
    refine sum_congr rfl fun n _ => ?_
    rw [← Exp.pairing_add]
    refine Exp.pairing_congr (fun _ _ _ _ => rfl) fun f filter x _ => ?_
    unfold Exp.sub
    dsimp only
    rw [Grid.number_div filter, Grid.number_mod filter]
  rw [show grad.count = _ from fits.2.2.2.1, whole, Exp.pairing_add, split, biases]
  ring

end ConvolutionLayer
end Singa
