import Singa.Neuralnet.NeuronLayer
import Singa.Neuralnet.SoftmaxGradient

/-!
# Parts of a batch

A batch is partitioned into equal parts, and every part goes through layers that
are set up for as many samples. What such a layer makes of its part is the same
part of what the whole layer makes of the batch.
-/

namespace Singa
set_option autoImplicit false

open Mshadow Finset

variable {α : Type}

/-- The image, the channel and the row that a row of a tensor is. -/
theorem image_row {images channels height r : ℕ} (lt : r < images * channels * height) :
    ∃ n < images, ∃ c < channels, ∃ y < height, r = (n * channels + c) * height + y := by
  have tall : 0 < height := Nat.pos_of_ne_zero fun zero => by simp [zero] at lt
  have wide : 0 < channels := Nat.pos_of_ne_zero fun zero => by simp [zero] at lt
  obtain ⟨cell, row⟩ := Grid.cell_of_number r tall
  obtain ⟨cell', channel⟩ := Grid.cell_of_number (r / height) wide
  refine ⟨r / height / channels, Grid.row_lt (Grid.row_lt lt), r / height % channels, channel, r % height, row, ?_⟩
  rw [cell', cell]

/-! ## Parts of blobs -/

namespace LayerBlob

variable [Zero α]

/-- The samples from `i * b` on, `b` of them: the first dimension of the shape counts samples. -/
def part (x : LayerBlob α) (b i : ℕ) : LayerBlob α where
  shape := b :: x.shape.tail
  values := (List.range (b * x.shape.tail.prod)).map fun k => x.dptr (i * (b * x.shape.tail.prod) + k)
  sized := (List.length_map _).trans (List.length_range.trans List.prod_cons.symm)

/-- The blob has `samples` samples. -/
def Batched (x : LayerBlob α) (samples : ℕ) : Prop := x.shape.head? = some samples

variable {x y : LayerBlob α} {n b i rows width : ℕ}

omit [Zero α] in
theorem Batched.shape (batched : x.Batched n) : x.shape = n :: x.shape.tail := by
  unfold Batched at batched
  cases shape : x.shape with
  | nil =>
    rw [shape] at batched
    cases batched
  | cons d rest =>
    rw [shape] at batched
    cases batched
    rfl

omit [Zero α] in
theorem Batched.count (batched : x.Batched n) : x.count = n * x.shape.tail.prod := by
  rw [LayerBlob.count, batched.shape]
  exact List.prod_cons

omit [Zero α] in
theorem Batched.congr (batched : x.Batched n) (same : y.shape = x.shape) : y.Batched n := by
  rw [Batched, same]
  exact batched

theorem count_part : (x.part b i).count = b * x.shape.tail.prod := List.prod_cons

/-- A part has its share of the elements. -/
theorem count_part_of (batched : x.Batched (n * b)) (some : 0 < n) (size : x.count = n * b * width) :
    (x.part b i).count = b * width := by
  rw [batched.count] at size
  rw [count_part]
  rcases Nat.eq_zero_or_pos b with rfl | pos
  · rw [Nat.zero_mul, Nat.zero_mul]
  · rw [Nat.eq_of_mul_eq_mul_left (Nat.mul_pos some pos) size]

theorem dptr_part {k : ℕ} (lt : k < (x.part b i).count) : (x.part b i).dptr k = x.dptr (i * (x.part b i).count + k) := by
  rw [count_part] at lt ⊢
  unfold dptr part
  rw [List.getD_eq_getElem _ _ (by rwa [List.length_map, List.length_range])]
  simp [dptr]

theorem tensor_part (size : (x.part b i).count = rows * width) {r c : ℕ} (row : r < rows) (column : c < width) :
    (x.part b i).tensor width r c = x.tensor width (i * rows + r) c := by
  unfold tensor
  rw [dptr_part (size ▸ Grid.number_lt row column), size]
  congr 1
  ring

theorem mem_part (batched : x.Batched (n * b)) (lt : i < n) {a : α} (mem : a ∈ (x.part b i).values) : a ∈ x.values := by
  obtain ⟨k, below, rfl⟩ := List.mem_map.mp mem
  refine dptr_mem ?_
  rw [batched.count, mul_assoc]
  exact Grid.number_lt lt (List.mem_range.mp below)

/-- The label of a sample of a part. -/
theorem dptr_part_label (batched : x.Batched (n * b)) (size : x.count = n * b) (lt : i < n) {m : ℕ} (row : m < b) :
    (x.part b i).dptr m = x.dptr (i * b + m) ∧ x.dptr (i * b + m) ∈ x.values := by
  have size' : (x.part b i).count = b := by
    have := count_part_of batched (i := i) (Nat.zero_lt_of_lt lt) (size.trans (mul_one _).symm)
    rwa [mul_one] at this
  have label := dptr_part (x := x) (i := i) (b := b) (size'.symm ▸ row)
  rw [size'] at label
  exact ⟨label, dptr_mem (size.symm ▸ Grid.number_lt lt row)⟩

/-- A blob that has the elements of a part is the part. -/
theorem eq_part (rows width : ℕ) (shape : y.shape = b :: x.shape.tail) (size : y.count = rows * width)
    (same : ∀ r < rows, ∀ c < width, y.tensor width r c = x.tensor width (i * rows + r) c) : y = x.part b i := by
  have size' : (x.part b i).count = rows * width := by
    rw [← size, count_part, LayerBlob.count, shape]
    exact List.prod_cons.symm
  refine ext_dptr shape fun k lt => ?_
  rw [size] at lt
  have pos : 0 < width := Nat.pos_of_ne_zero fun zero => by simp [zero] at lt
  obtain ⟨cell, column⟩ := Grid.cell_of_number k pos
  have here := same _ (Grid.row_lt lt) _ column
  rw [← tensor_part size' (Grid.row_lt lt) column] at here
  unfold tensor at here
  rwa [cell] at here

end LayerBlob

section Layers

open LayerBlob

variable {n b i : ℕ} {src data feature : LayerBlob α}

/-! ## `InnerProductLayer` -/

def InnerProductLayer.batch (layer : InnerProductLayer) (b : ℕ) : InnerProductLayer := { layer with batchsize := b }

theorem InnerProductLayer.computeFeature_part [CommSemiring α] {layer : InnerProductLayer} {weight bias : LayerBlob α}
    (samples : layer.batchsize = n * b) (lt : i < n) (batchedSrc : src.Batched (n * b)) (batchedData : data.Batched (n * b))
    (run : layer.computeFeature weight bias src data = .ok feature) :
    (layer.batch b).computeFeature weight bias (src.part b i) (data.part b i) = .ok (feature.part b i) := by
  obtain ⟨⟨sizeSrc, sizeWeight, sizeBias, sizeData, some⟩, shape, value⟩ := layer.computeFeature_ok run
  rw [samples] at sizeSrc sizeData value some
  have pos : 0 < n := Nat.zero_lt_of_lt lt
  have fitsSrc : (src.part b i).count = b * layer.vdim := count_part_of batchedSrc pos sizeSrc
  have fitsData : (data.part b i).count = b * layer.hdim := count_part_of batchedData pos sizeData
  have run' : ∃ feature', (layer.batch b).computeFeature weight bias (src.part b i) (data.part b i) = .ok feature' :=
    ⟨_, if_pos ⟨fitsSrc, sizeWeight, sizeBias, fitsData, Nat.pos_of_mul_pos_left some⟩⟩
  obtain ⟨feature', run'⟩ := run'
  obtain ⟨-, shape', value'⟩ := (layer.batch b).computeFeature_ok run'
  rw [run']
  refine congrArg Except.ok (eq_part b layer.hdim ?_ ?_ fun r row c column => ?_)
  · rw [shape', shape]
    rfl
  · rw [LayerBlob.count, shape']
    exact fitsData
  · rw [value (i * b + r) (Grid.number_lt lt row) c column]
    refine (value' r row c column).trans (congrArg (· + bias.dptr c) (sum_congr rfl fun v mem => ?_))
    exact congrArg (· * weight.tensor layer.hdim v c) (tensor_part fitsSrc row (mem_range.mp mem))

/-! ## `ConvolutionLayer` -/

def ConvolutionLayer.batch (layer : ConvolutionLayer) (b : ℕ) : ConvolutionLayer := { layer with batchsize := b }

theorem ConvolutionLayer.computeFeature_part [CommSemiring α] {layer : ConvolutionLayer} {weight bias : LayerBlob α}
    (samples : layer.batchsize = n * b) (lt : i < n) (batchedData : data.Batched (n * b))
    (run : layer.computeFeature weight bias src data = .ok feature) :
    (layer.batch b).computeFeature weight bias (src.part b i) (data.part b i) = .ok (feature.part b i) := by
  obtain ⟨fits, shape, -⟩ := layer.computeFeature_ok run
  have fitsSrc := layer.count_src fits
  obtain ⟨shapeSrc, sizeWeight, sizeBias, sizeData, room⟩ := fits
  rw [samples] at sizeData shapeSrc
  have pos : 0 < n := Nat.zero_lt_of_lt lt
  have batchedSrc : src.Batched (n * b) := by
    rw [Batched, shapeSrc]
    rfl
  have fitsData : (data.part b i).count = b * layer.numFilters * layer.colWidth := by
    rw [mul_assoc]
    exact count_part_of batchedData pos (sizeData.trans (mul_assoc _ _ _))
  have partSrc : (src.part b i).shape = [b, layer.channels, layer.height, layer.width] := by
    show b :: src.shape.tail = _
    rw [shapeSrc]
    rfl
  have run' : ∃ feature', (layer.batch b).computeFeature weight bias (src.part b i) (data.part b i) = .ok feature' :=
    ⟨_, if_pos ⟨partSrc, sizeWeight, sizeBias, fitsData, room⟩⟩
  obtain ⟨feature', run'⟩ := run'
  obtain ⟨fits', shape', -⟩ := (layer.batch b).computeFeature_ok run'
  have sizeSrc : (src.part b i).count = b * layer.channels * layer.height * layer.width := by
    rw [(layer.batch b).count_src fits']
    show b * (layer.channels * layer.height) * layer.width = _
    ring
  rw [run']
  have fitsData' : (data.part b i).count = b * layer.numFilters * layer.convHeight * layer.convWidth := by
    rw [fitsData, colWidth]
    ring
  refine congrArg Except.ok (eq_part (b * layer.numFilters * layer.convHeight) layer.convWidth ?_ ?_
    fun r below px column => ?_)
  · rw [shape', shape]
    rfl
  · rw [LayerBlob.count, shape']
    exact fitsData'
  · obtain ⟨m, image, f, filter, py, row, rfl⟩ := image_row below
    have place : i * (b * layer.numFilters * layer.convHeight) + ((m * layer.numFilters + f) * layer.convHeight + py) =
        ((i * b + m) * layer.numFilters + f) * layer.convHeight + py := by ring
    unfold LayerBlob.tensor
    rw [place, layer.computeFeature_convolves run (samples ▸ Grid.number_lt lt image) filter row column]
    refine ((layer.batch b).computeFeature_convolves run' image filter row column).trans (congrArg (· + bias.dptr f) ?_)
    refine sum_congr rfl fun c channel => sum_congr rfl fun dy _ => sum_congr rfl fun dx _ => ?_
    refine congrArg (weight.dptr _ * ·) (ite_congr rfl (fun inside => ?_) fun _ => rfl)
    have pixel := tensor_part sizeSrc (r := (m * layer.channels + c) * layer.height + (py * layer.stride + dy - layer.pad))
      (c := px * layer.stride + dx - layer.pad) (Grid.number_lt (Grid.number_lt image (mem_range.mp channel)) (by omega)) (by omega)
    unfold LayerBlob.tensor at pixel
    refine pixel.trans (congrArg src.dptr ?_)
    ring

/-! ## `PoolingLayer` -/

def PoolingLayer.batch (layer : PoolingLayer) (b : ℕ) : PoolingLayer := { layer with batchsize := b }

theorem PoolingLayer.computeFeature_part [Field α] [LinearOrder α] {layer : PoolingLayer} {fltMax : α}
    (samples : layer.batchsize = n * b) (lt : i < n) (run : layer.computeFeature fltMax src data = .ok feature) :
    (layer.batch b).computeFeature fltMax (src.part b i) (data.part b i) = .ok (feature.part b i) := by
  obtain ⟨fits, shape, value⟩ := layer.computeFeature_ok fltMax run
  have room := fits.2.2
  have shapeSrc := fits.1
  have shapeData := fits.2.1
  have partSrc : (src.part b i).shape = [b, layer.channels, layer.height, layer.width] := by
    show b :: src.shape.tail = _
    rw [shapeSrc]
    rfl
  have partData : (data.part b i).shape = [b, layer.channels, layer.pooledHeight, layer.pooledWidth] := by
    show b :: data.shape.tail = _
    rw [shapeData]
    rfl
  have fits' : (layer.batch b).Fits (src.part b i) (data.part b i) := ⟨partSrc, partData, room⟩
  have run' : ∃ feature', (layer.batch b).computeFeature fltMax (src.part b i) (data.part b i) = .ok feature' := ⟨_, if_pos fits'⟩
  obtain ⟨feature', run'⟩ := run'
  obtain ⟨-, shape', value'⟩ := (layer.batch b).computeFeature_ok fltMax run'
  have sizeSrc := (layer.batch b).count_src fits'
  rw [run']
  refine congrArg Except.ok (eq_part (b * layer.channels * layer.pooledHeight) layer.pooledWidth ?_ ?_ fun r below px column => ?_)
  · rw [shape', shape]
    rfl
  · rw [LayerBlob.count, shape']
    exact (layer.batch b).count_data fits'
  · obtain ⟨m, image, c, channel, py, row, rfl⟩ := image_row below
    have place : i * (b * layer.channels * layer.pooledHeight) + ((m * layer.channels + c) * layer.pooledHeight + py) =
        ((i * b + m) * layer.channels + c) * layer.pooledHeight + py := by ring
    have image' : i * b + m < layer.batchsize := samples ▸ Grid.number_lt lt image
    have pixel : ∀ y < layer.height, ∀ x < layer.width, (src.part b i).tensor layer.width ((m * layer.channels + c) * layer.height + y) x =
        src.tensor layer.width (((i * b + m) * layer.channels + c) * layer.height + y) x := by
      intro y tall x wide
      refine (tensor_part sizeSrc (Grid.number_lt (Grid.number_lt image channel) tall) wide).trans ?_
      refine congrArg (src.tensor layer.width · x) ?_
      dsimp only [batch]
      ring
    have pools : ∀ r : Reducer α,
        Exp.pool r layer.kernel layer.stride layer.height layer.width ((src.part b i).tensor layer.width)
            ((m * layer.channels + c) * layer.pooledHeight + py) px =
          Exp.pool r layer.kernel layer.stride layer.height layer.width (src.tensor layer.width)
            (((i * b + m) * layer.channels + c) * layer.pooledHeight + py) px := by
      intro r
      refine (pool_at r room.1 room.2.1 _ row column).trans (Eq.trans ?_ (pool_at r room.1 room.2.1 _ row column).symm)
      have inside := patch_inside room.1 row
      have inside' := patch_inside room.2.1 column
      refine loop_congr _ fun res y low high => loop_congr _ fun res x low' high' => ?_
      rw [pixel y (by omega) x (by omega)]
    rw [place, value _ (Grid.number_lt (Grid.number_lt image' channel) row) px column]
    refine (value' _ below px column).trans ?_
    unfold pooled
    have method' : (layer.batch b).pool = layer.pool := rfl
    cases method : layer.pool with
    | max =>
      rw [method', method]
      exact pools _
    | ave =>
      rw [method', method]
      exact congrArg (· * layer.share) (pools _)

/-! ## `LRNLayer` -/

def LRNLayer.batch (layer : LRNLayer α) (b : ℕ) : LRNLayer α := { layer with batchsize := b }

theorem LRNLayer.computeFeature_part [Field α] {m : FloatMath α} {layer : LRNLayer α} {norm norm' : LayerBlob α}
    (samples : layer.batchsize = n * b) (lt : i < n) (run : layer.computeFeature m norm src data = .ok (norm', feature)) :
    (layer.batch b).computeFeature m (norm.part b i) (src.part b i) (data.part b i) = .ok (norm'.part b i, feature.part b i) := by
  obtain ⟨fits, shape, value⟩ := layer.computeFeature_ok m run
  obtain ⟨shapeSrc, sameData, sameNorm, room⟩ := fits
  have sameNorm' : norm'.shape = norm.shape := by
    unfold computeFeature at run
    split at run
    · cases run
      rfl
    · cases run
  have tail : ∀ {x : LayerBlob α}, x.shape = src.shape → (x.part b i).shape = [b, layer.channels, layer.height, layer.width] := by
    intro x same
    show b :: x.shape.tail = _
    rw [same, shapeSrc]
    rfl
  have sizes : ∀ {x : LayerBlob α}, x.shape = src.shape →
      (x.part b i).count = b * layer.channels * layer.height * layer.width := by
    intro x same
    rw [LayerBlob.count, tail same]
    simp [mul_assoc]
  have fits' : (layer.batch b).Fits (norm.part b i) (src.part b i) (data.part b i) :=
    ⟨tail rfl, (tail sameData).trans (tail rfl).symm, (tail sameNorm).trans (tail rfl).symm, room⟩
  have run' : ∃ norm₁ feature', (layer.batch b).computeFeature m (norm.part b i) (src.part b i) (data.part b i) =
      .ok (norm₁, feature') := ⟨_, _, if_pos fits'⟩
  obtain ⟨norm₁, feature', run'⟩ := run'
  obtain ⟨-, shape', value'⟩ := (layer.batch b).computeFeature_ok m run'
  have sameNorm₁ : norm₁.shape = (norm.part b i).shape := by
    unfold computeFeature at run'
    rw [if_pos fits'] at run'
    cases run'
    rfl
  have normalizers : ∀ r < b * layer.channels * layer.height, ∀ x < layer.width,
      (layer.batch b).normalizer ((src.part b i).tensor layer.width) r x =
        layer.normalizer (src.tensor layer.width) (i * (b * layer.channels * layer.height) + r) x := by
    intro r below x column
    obtain ⟨im, image, c, channel, y, row, rfl⟩ := image_row below
    have place : i * (b * layer.channels * layer.height) + ((im * layer.channels + c) * layer.height + y) =
        ((i * b + im) * layer.channels + c) * layer.height + y := by ring
    unfold normalizer nearby
    rw [place, chpool_at _ channel row]
    refine congrArg (· * layer.salpha + layer.knorm) ((chpool_at _ channel row).trans (sum_congr rfl fun cc mem => ?_))
    refine ite_congr rfl (fun _ => ?_) fun _ => rfl
    rw [tensor_part (sizes rfl) (Grid.number_lt (Grid.number_lt image (mem_range.mp mem)) row) column]
    have place' : i * (b * layer.channels * layer.height) + ((im * layer.channels + cc) * layer.height + y) =
        ((i * b + im) * layer.channels + cc) * layer.height + y := by ring
    rw [place']
  have whole : ∀ r < b * layer.channels * layer.height,
      i * (b * layer.channels * layer.height) + r < layer.batchsize * layer.channels * layer.height := by
    intro r below
    have := Grid.number_lt lt below
    rw [samples]
    calc _ < n * (b * layer.channels * layer.height) := this
      _ = _ := by ring
  rw [run']
  refine congrArg Except.ok (congrArg₂ Prod.mk ?_ ?_)
  · refine eq_part (b * layer.channels * layer.height) layer.width ?_ ?_ fun r below x column => ?_
    · rw [sameNorm₁, sameNorm']
      rfl
    · rw [LayerBlob.count, sameNorm₁]
      exact sizes sameNorm
    · rw [(value _ (whole r below) x column).1, ← normalizers r below x column]
      exact (value' r below x column).1
  · refine eq_part (b * layer.channels * layer.height) layer.width ?_ ?_ fun r below x column => ?_
    · rw [shape', shape]
      rfl
    · rw [LayerBlob.count, shape']
      exact sizes sameData
    · rw [(value _ (whole r below) x column).2, ← normalizers r below x column, ← tensor_part (sizes rfl) below column]
      exact (value' r below x column).2

/-! ## Layers that work element by element -/

theorem mapInto_part [Zero α] {op : α → α} (lt : i < n) (batchedSrc : src.Batched (n * b)) (batchedData : data.Batched (n * b))
    (run : mapInto op src data = .ok feature) : mapInto op (src.part b i) (data.part b i) = .ok (feature.part b i) := by
  obtain ⟨same, shape, value⟩ := mapInto_ok run
  have pos : 0 < n := Nat.zero_lt_of_lt lt
  have sizeData : (data.part b i).count = b * data.shape.tail.prod := count_part
  have sizeSrc : (src.part b i).count = b * data.shape.tail.prod :=
    count_part_of batchedSrc pos (same.trans batchedData.count)
  have run' : ∃ feature', mapInto op (src.part b i) (data.part b i) = .ok feature' := ⟨_, if_pos (sizeSrc.trans sizeData.symm)⟩
  obtain ⟨feature', run'⟩ := run'
  obtain ⟨-, shape', value'⟩ := mapInto_ok run'
  rw [run']
  refine congrArg Except.ok (eq_part b data.shape.tail.prod ?_ ?_ fun r row c column => ?_)
  · rw [shape', shape]
    rfl
  · rw [LayerBlob.count, shape']
    exact sizeData
  · unfold LayerBlob.tensor
    have place := Grid.number_lt (Grid.number_lt lt row) column
    rw [value _ (batchedData.count ▸ place), value' _ (sizeData ▸ Grid.number_lt row column)]
    exact congrArg op (tensor_part sizeSrc row column)

/-- The numbers of a part are the part of the numbers. -/
def FloatEnv.part (env : FloatEnv α) (size i : ℕ) : FloatEnv α := { env with uniform := fun k => env.uniform (i * size + k) }

/-- A part of a blob that is mapped into, as a tensor of one dimension. -/
theorem save_part [Zero α] {x : LayerBlob α} (batched : x.Batched (n * b)) (lt : i < n) (op : ℕ → α) :
    (x.part b i).save (x.part b i).count (fun _ k => op (i * (x.part b i).count + k)) =
      (x.save x.count fun _ k => op k).part b i := by
  have size : (x.part b i).count = b * x.shape.tail.prod := count_part
  refine eq_part b x.shape.tail.prod rfl size fun r row c column => ?_
  have place := Grid.number_lt row column
  have place' : i * (b * x.shape.tail.prod) + (r * x.shape.tail.prod + c) = (i * b + r) * x.shape.tail.prod + c := by ring
  have whole := Grid.number_lt (Grid.number_lt lt row) column
  unfold LayerBlob.tensor
  rw [← size] at place
  rw [← batched.count] at whole
  rw [dptr_save _ _ _ place, dptr_save _ _ _ whole, Nat.mod_eq_of_lt place, Nat.mod_eq_of_lt whole, size, place']

theorem DropoutLayer.computeFeature_part [Field α] [LinearOrder α] {pdrop : α} {uniform : ℕ → α} {mask mask' : LayerBlob α}
    (lt : i < n) (batchedMask : mask.Batched (n * b)) (batchedSrc : src.Batched (n * b)) (batchedData : data.Batched (n * b))
    (run : DropoutLayer.computeFeature pdrop true uniform mask src data = .ok (mask', feature)) :
    DropoutLayer.computeFeature pdrop true (fun k => uniform (i * (mask.part b i).count + k)) (mask.part b i) (src.part b i)
      (data.part b i) = .ok (mask'.part b i, feature.part b i) := by
  unfold DropoutLayer.computeFeature at run ⊢
  rw [if_pos rfl] at run ⊢
  dsimp only at run ⊢
  split at run
  · next same =>
    rw [count_save] at same
    have pos : 0 < n := Nat.zero_lt_of_lt lt
    have sizeData : (data.part b i).count = b * data.shape.tail.prod := count_part
    have sizeSrc : (src.part b i).count = b * data.shape.tail.prod :=
      count_part_of batchedSrc pos (same.1.trans batchedData.count)
    have sizeMask : (mask.part b i).count = b * data.shape.tail.prod :=
      count_part_of batchedMask pos (same.2.trans batchedData.count)
    cases run
    rw [if_pos ⟨sizeSrc.trans sizeData.symm, sizeMask.trans sizeData.symm⟩,
      save_part batchedMask lt fun x => Op.threshold (uniform x) (1 - pdrop) * (1 / (1 - pdrop))]
    set mask' := mask.save mask.count fun _ x => Op.threshold (uniform x) (1 - pdrop) * (1 / (1 - pdrop)) with mask_eq
    refine congrArg (fun feature => Except.ok (mask'.part b i, feature)) ?_
    refine eq_part b data.shape.tail.prod rfl sizeData fun r row c column => ?_
    have place := Grid.number_lt row column
    have whole := Grid.number_lt (Grid.number_lt lt row) column
    unfold LayerBlob.tensor
    rw [dptr_save _ _ _ (sizeData ▸ place), dptr_save _ _ _ (batchedData.count ▸ whole), Nat.mod_eq_of_lt (sizeData ▸ place),
      Nat.mod_eq_of_lt (batchedData.count ▸ whole)]
    have sizeMask' : (mask'.part b i).count = b * data.shape.tail.prod := sizeMask
    exact congrArg₂ (· * ·) (tensor_part sizeSrc row column) (tensor_part sizeMask' row column)
  · cases run

/-! ## Neuron layers -/

namespace NeuronLayer

/-- The layer that is set up for `b` samples. -/
def batch (layer : NeuronLayer α) (b : ℕ) : NeuronLayer α :=
  match layer with
  | convolution layer => convolution (layer.batch b)
  | innerProduct layer => innerProduct (layer.batch b)
  | lrn layer => lrn (layer.batch b)
  | pooling layer => pooling (layer.batch b)
  | dropout pdrop => dropout pdrop
  | relu => relu
  | tanh => tanh

/-- The layer has been set up for `samples` samples. -/
def Samples (layer : NeuronLayer α) (samples : ℕ) : Prop :=
  match layer with
  | convolution layer => layer.batchsize = samples
  | innerProduct layer => layer.batchsize = samples
  | lrn layer => layer.batchsize = samples
  | pooling layer => layer.batchsize = samples
  | dropout _ | relu | tanh => True

/-- **Layers treat samples alike, and apart from each other**: what a layer for `b` samples makes of a part of the batch is
that part of what the layer makes of the batch. -/
theorem computeFeature_part [Field α] [LinearOrder α] {env : FloatEnv α} {layer : NeuronLayer α} {params : List (LayerBlob α)}
    {own own' : LayerBlob α} (samples : layer.Samples (n * b)) (lt : i < n)
    (batchedMask : ∀ pdrop, layer = dropout pdrop → own.Batched (n * b)) (batchedSrc : src.Batched (n * b))
    (batchedData : data.Batched (n * b)) (run : layer.computeFeature env true params own src data = .ok (own', feature)) :
    (layer.batch b).computeFeature (env.part (own.part b i).count i) true params (own.part b i) (src.part b i) (data.part b i) =
      .ok (own'.part b i, feature.part b i) := by
  cases layer with
  | convolution layer =>
    rcases params with _ | ⟨weight, _ | ⟨bias, _ | _⟩⟩
    case cons.cons.nil =>
      obtain ⟨rfl, made⟩ := map_own_ok.mp run
      exact map_own_ok.mpr ⟨rfl, ConvolutionLayer.computeFeature_part samples lt batchedData made⟩
    all_goals cases run
  | innerProduct layer =>
    rcases params with _ | ⟨weight, _ | ⟨bias, _ | _⟩⟩
    case cons.cons.nil =>
      obtain ⟨rfl, made⟩ := map_own_ok.mp run
      exact map_own_ok.mpr ⟨rfl, InnerProductLayer.computeFeature_part samples lt batchedSrc batchedData made⟩
    all_goals cases run
  | dropout pdrop =>
    cases params with
    | cons => cases run
    | nil => exact DropoutLayer.computeFeature_part lt (batchedMask pdrop rfl) batchedSrc batchedData run
  | lrn layer =>
    cases params with
    | cons => cases run
    | nil => exact LRNLayer.computeFeature_part samples lt run
  | pooling layer =>
    cases params with
    | cons => cases run
    | nil =>
      obtain ⟨rfl, made⟩ := map_own_ok.mp run
      exact map_own_ok.mpr ⟨rfl, PoolingLayer.computeFeature_part samples lt made⟩
  | relu =>
    cases params with
    | cons => cases run
    | nil =>
      obtain ⟨rfl, made⟩ := map_own_ok.mp run
      exact map_own_ok.mpr ⟨rfl, mapInto_part lt batchedSrc batchedData made⟩
  | tanh =>
    cases params with
    | cons => cases run
    | nil =>
      obtain ⟨rfl, made⟩ := map_own_ok.mp run
      exact map_own_ok.mpr ⟨rfl, mapInto_part lt batchedSrc batchedData made⟩

/-- A layer has a derivative at a part of a batch where it has one at the batch. -/
theorem Smooth.part {layer : NeuronLayer ℝ} {env : FloatEnv ℝ} {params : List (LayerBlob ℝ)} {own own' src data feature : LayerBlob ℝ}
    (smooth : layer.Smooth env.fltMax src) (samples : layer.Samples (n * b)) (lt : i < n) (batched : src.Batched (n * b))
    (run : layer.computeFeature env true params own src data = .ok (own', feature)) :
    (layer.batch b).Smooth env.fltMax (src.part b i) := by
  cases layer with
  | relu =>
    intro k below
    rw [dptr_part below]
    refine smooth _ ?_
    rw [batched.count, mul_assoc, ← count_part (i := i)]
    exact Grid.number_lt lt below
  | pooling layer =>
    cases params with
    | cons => cases run
    | nil =>
      obtain ⟨-, made⟩ := map_own_ok.mp run
      obtain ⟨fits, -, -⟩ := layer.computeFeature_ok env.fltMax made
      have sizeSrc : (src.part b i).count = b * layer.channels * layer.height * layer.width := by
        rw [count_part, fits.1]
        simp [mul_assoc]
      intro max c below py row px column
      have channel : i * (b * layer.channels) + c < layer.batchsize * layer.channels := by
        have := Grid.number_lt lt below
        rw [show layer.batchsize = n * b from samples, mul_assoc]
        exact this
      obtain ⟨dy, dx, ⟨low, low', above⟩, largest⟩ := smooth max _ channel py row px column
      have pixel : ∀ dy < layer.kernel, ∀ dx < layer.kernel,
          (src.part b i).tensor layer.width ((layer.batch b).patchRow c py dy) ((layer.batch b).patchColumn px dx) =
            src.tensor layer.width (layer.patchRow (i * (b * layer.channels) + c) py dy) (layer.patchColumn px dx) := by
        intro dy low dx low'
        have inside : py * layer.stride + layer.kernel ≤ layer.height := patch_inside fits.2.2.1 row
        have inside' : px * layer.stride + layer.kernel ≤ layer.width := patch_inside fits.2.2.2.1 column
        have tall : py * layer.stride + dy < layer.height := by omega
        have wide : px * layer.stride + dx < layer.width := by omega
        refine (tensor_part sizeSrc (Grid.number_lt below tall) wide).trans ?_
        refine congrArg (src.tensor layer.width · _) ?_
        unfold PoolingLayer.patchRow
        ring
      refine ⟨dy, dx, ⟨low, low', ?_⟩, fun dy' small dx' small' other => ?_⟩
      · exact above.trans_eq (pixel dy low dx low').symm
      · exact (pixel dy' small dx' small').trans_lt ((largest dy' small dx' small' other).trans_eq (pixel dy low dx low').symm)
  | lrn layer => exact smooth
  | convolution layer => trivial
  | innerProduct layer => trivial
  | dropout pdrop => trivial
  | tanh => trivial

end NeuronLayer

/-! ## `SoftmaxLossLayer` -/

namespace SoftmaxLossLayer

/-- The layer that is set up for `b` samples. -/
def batch (layer : SoftmaxLossLayer α) (b : ℕ) : SoftmaxLossLayer α := { layer with batchsize := b }

/-- **The loss of a batch is the mean of the losses of its parts**, whose probabilities are parts of those of the batch. -/
theorem computeFeature_part {fltMin : ℝ} {layer layer' : SoftmaxLossLayer ℝ} {prob source labels : LayerBlob ℝ} {loss accuracy : ℝ}
    (samples : layer.batchsize = n * b) (whole : prob.count = layer.batchsize * layer.dim) (same : source.count = prob.count)
    (top : layer.topk ≤ layer.dim) (batch : labels.count = layer.batchsize)
    (labelled : ∀ label ∈ labels.values, 0 ≤ (FloatOps.real fltMin).toInt label ∧ (FloatOps.real fltMin).toInt label < layer.dim)
    (checked : ∀ label ∈ labels.values, (FloatOps.real fltMin).toInt label < 278) (batchedProb : prob.Batched (n * b))
    (batchedSource : source.Batched (n * b)) (batchedLabels : labels.Batched (n * b))
    (run : (({ layer with data := prob } : SoftmaxLossLayer ℝ).computeFeature (FloatOps.real fltMin) source labels).result =
      .ok (layer', loss, accuracy)) :
    ∃ losses accuracies : ℕ → ℝ,
      (∀ i < n, (({ layer.batch b with data := prob.part b i } : SoftmaxLossLayer ℝ).computeFeature (FloatOps.real fltMin)
        (source.part b i) (labels.part b i)).result =
          .ok ({ layer.batch b with data := layer'.data.part b i }, losses i, accuracies i)) ∧
      n * loss = ∑ i ∈ range n, losses i := by
  obtain ⟨predicted, scored⟩ := computeFeature_returned run
  obtain ⟨data, shape, rfl⟩ := predict_layer predicted
  have value := score_value scored
  have each : ∀ i < n, ∃ loss accuracy : ℝ,
      (({ layer.batch b with data := prob.part b i } : SoftmaxLossLayer ℝ).computeFeature (FloatOps.real fltMin)
        (source.part b i) (labels.part b i)).result = .ok ({ layer.batch b with data := data.part b i }, loss, accuracy) ∧
      loss = -(∑ m ∈ range b, ({ layer with data := data } : SoftmaxLossLayer ℝ).penalty (FloatOps.real fltMin) labels data
        (i * b + m)) * layer.scale / (1 * b) := by
    intro i lt
    have pos : 0 < n := Nat.zero_lt_of_lt lt
    have sizeProb : (prob.part b i).count = b * layer.dim := count_part_of batchedProb pos (samples ▸ whole)
    have sizeSource : (source.part b i).count = b * layer.dim := count_part_of batchedSource pos (same.trans (samples ▸ whole))
    have sizeLabels : (labels.part b i).count = b * 1 :=
      count_part_of batchedLabels pos (batch.trans (samples.trans (mul_one _).symm))
    have listed : ∀ label ∈ (labels.part b i).values, label ∈ labels.values := fun label mem => mem_part batchedLabels lt mem
    have total : ∃ r, (({ layer.batch b with data := prob.part b i } : SoftmaxLossLayer ℝ).computeFeature (FloatOps.real fltMin)
        (source.part b i) (labels.part b i)).result = .ok r :=
      computeFeature_total (FloatOps.real fltMin) sizeProb (sizeSource.trans sizeProb.symm) top (sizeLabels.trans (mul_one b))
        (fun label mem => ⟨(labelled label (listed label mem)).1, checked label (listed label mem)⟩)
        fun label mem => (labelled label (listed label mem)).2
    obtain ⟨⟨layer₁, loss₁, accuracy₁⟩, made⟩ := total
    obtain ⟨predicted₁, scored₁⟩ := computeFeature_returned made
    obtain ⟨data₁, shape₁, rfl⟩ := predict_layer predicted₁
    have parted : data₁ = data.part b i := by
      refine eq_part b layer.dim ?_ ?_ fun m row k column => ?_
      · rw [shape₁, shape]
        rfl
      · rw [LayerBlob.count, shape₁]
        exact sizeProb
      · have sample : i * b + m < layer.batchsize := samples ▸ Grid.number_lt lt row
        have here := predict_share sizeProb (sizeSource.trans sizeProb.symm) predicted₁ row column
        have there := predict_share whole same predicted sample column
        refine here.trans (Eq.trans ?_ there.symm)
        refine Velocity.share_congr (fun j mem => ?_) (mem_range.mpr column)
        exact tensor_part sizeSource row (mem_range.mp mem)
    subst parted
    refine ⟨loss₁, accuracy₁, made, ?_⟩
    have value₁ := score_value scored₁
    rw [value₁]
    refine congrArg (fun s => -s * layer.scale / (1 * (b : ℝ))) (sum_congr rfl fun m mem => ?_)
    have row : m < b := mem_range.mp mem
    obtain ⟨label, listed⟩ := dptr_part_label batchedLabels (batch.trans samples) lt row
    have below : ((FloatOps.real fltMin).toInt (labels.dptr (i * b + m))).toNat < layer.dim := by
      have range := labelled _ listed
      omega
    unfold penalty
    rw [label]
    have sizeData : (data.part b i).count = b * layer.dim := by
      rw [count_part, shape, ← count_part (i := i)]
      exact sizeProb
    have pixel := tensor_part sizeData row below
    unfold LayerBlob.tensor at pixel
    exact congrArg (fun x => Real.log (max x fltMin)) pixel
  choose! losses accuracies returns lossEq using each
  refine ⟨losses, accuracies, returns, ?_⟩
  rw [value, sum_congr rfl fun i mem => lossEq i (mem_range.mp mem), ← sum_div, ← sum_mul, sum_neg_distrib, ← Pairing.sum_grid]
  dsimp only
  rw [samples, Nat.cast_mul]
  rcases Nat.eq_zero_or_pos n with rfl | pos
  · simp
  · have whole : (n : ℝ) ≠ 0 := Nat.cast_ne_zero.mpr pos.ne'
    rw [one_mul, one_mul, ← mul_div_assoc, mul_div_mul_left _ _ whole]

end SoftmaxLossLayer

end Layers
end Singa
