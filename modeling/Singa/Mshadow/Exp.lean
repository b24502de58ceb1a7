import Mathlib.Algebra.BigOperators.Intervals
import Singa.Neuralnet.LayerBlob

/-!
# Expressions of `mshadow`

A tensor expression is evaluated place by place: its plan says what is at place
`j` of row `i`, where all dimensions but the lowest one are counted by the rows.
The plans are those of `tensor_expr_ext.h`, with the index arithmetic done there.
-/

namespace Singa.Mshadow
set_option autoImplicit false

open Finset

variable {α σ : Type}

/-- An expression, as its plan evaluates it: `Eval(i, j)`. -/
abbrev Exp (α : Type) := ℕ → ℕ → α

/-- `for (i = start; i < stop; ++i)`. -/
def loop (start stop : ℕ) (body : σ → ℕ → σ) (s : σ) : σ := (List.range' start (stop - start)).foldl body s

/-- A reducer of the namespace `red`. -/
structure Reducer (α : Type) where
  initV : α
  reduce : α → α → α
  partialGrad : α → α → α

/-- `red::sum`. -/
def Reducer.sum [Zero α] [One α] [Add α] : Reducer α := ⟨0, (· + ·), fun _ _ => 1⟩

/-- `red::maximum`; `FLT_MAX` is a parameter. -/
def Reducer.maximum [Zero α] [One α] [Neg α] [LinearOrder α] (fltMax : α) : Reducer α :=
  ⟨-fltMax, max, fun redres redsrc => if redres = redsrc then 1 else 0⟩

namespace Exp

/-- `mat.T()`. -/
def T (mat : Exp α) : Exp α := fun i j => mat j i

/-- `src[n]`, where every `src[n]` has `rows` rows. -/
def sub (rows n : ℕ) (src : Exp α) : Exp α := fun i j => src (n * rows + i) j

/-- `dot(lhs, rhs)`: the product that `gemm` computes. -/
def dot [AddCommMonoid α] [Mul α] (inner : ℕ) (lhs rhs : Exp α) : Exp α :=
  fun i j => ∑ k ∈ range inner, lhs i k * rhs k j

/-- `repmat(src, nrow)`. -/
def repmat (src : ℕ → α) : Exp α := fun _ x => src x

/-- `broadcast<1>(src, shape)`, for `src` of the given length. -/
def broadcast1 (length : ℕ) (src : ℕ → α) : Exp α := fun y _ => src (y / 1 % length)

/-- `sum_rows(exp)`: `MapReduceKeepLowest`. -/
def sumRows [Add α] (rows : ℕ) (exp : Exp α) : ℕ → α := fun x => loop 1 rows (fun res y => res + exp y x) (exp 0 x)

/-- `sumall_except_dim<1>(exp)` of a tensor of `count` matrices: `MapReduceKeepHighDim`. -/
def sumallExceptDim1 [Zero α] [Add α] (count rows width : ℕ) (exp : Exp α) : ℕ → α := fun c =>
  loop 0 count (fun res n =>
    res + loop 0 1 (fun tres y => loop 0 width (fun tres x => tres + exp ((n * rows + c) * 1 + y) x) tres) 0) 0

/-- `unpack_patch2col(img, psize, pstride)`. -/
def unpackPatch2col [Zero α] (psize pstride channel height width : ℕ) (src : Exp α) : Exp α := fun i j =>
  let oHeight := (height - psize) / pstride + 1
  let oWidth := (width - psize) / pstride + 1
  let xOffset := i % psize
  let idivp := i / psize
  let yOffset := idivp % psize
  let c := idivp / psize
  let x := j % oWidth * pstride + xOffset
  let jdivw := j / oWidth
  let y := jdivw % oHeight * pstride + yOffset
  let n := jdivw / oHeight
  if x < width ∧ y < height then src ((n * channel + c) * height + y) x else 0

/-- `pack_col2patch(mat, imshape, psize, pstride)`. -/
def packCol2patch [Zero α] [Add α] (psize pstride channel height width : ℕ) (mat : Exp α) : Exp α := fun i j =>
  let oWidth := (width - psize) / pstride + 1
  let oHeight := (height - psize) / pstride + 1
  let y := i % height
  let idivh := i / height
  let c := idivh % channel
  let n := idivh / channel
  let x := j
  let pyMin := if y < psize then 0 else (y - psize + pstride) / pstride
  let pxMin := if x < psize then 0 else (x - psize + pstride) / pstride
  let pyMax := min ((y + pstride) / pstride) oHeight
  let pxMax := min ((x + pstride) / pstride) oWidth
  loop pyMin pyMax (fun res py => loop pxMin pxMax (fun res px =>
    res + mat ((c * psize + y - py * pstride) * psize + x - px * pstride) ((n * oHeight + py) * oWidth + px)) res) 0

/-- `pad(src, pad)`. -/
def pad [Zero α] (pad height width : ℕ) (src : Exp α) : Exp α := fun i j =>
  let newHeight := height + pad * 2
  let x := j
  let y := i % newHeight
  let c := i / newHeight
  if y < pad ∨ x < pad then 0
  else
    let h := y - pad
    let w := x - pad
    if h < height ∧ w < width then src (c * height + h) w else 0

/-- `crop(src, oshape)`, from the centre of images of `height` by `width`. -/
def crop (height width newHeight newWidth : ℕ) (src : Exp α) : Exp α := fun i j =>
  let padHeight := (height - newHeight) / 2
  let padWidth := (width - newWidth) / 2
  let y := i % newHeight
  let c := i / newHeight
  src (c * height + (y + padHeight)) (j + padWidth)

/-- `pool<Reducer>(src, ksize, kstride)`. -/
def pool (r : Reducer α) (ksize kstride height width : ℕ) (src : Exp α) : Exp α := fun i j =>
  let newHeight := (height - ksize) / kstride + 1
  let py := i % newHeight
  let yStart := py * kstride
  let yEnd := min (yStart + ksize) height
  let px := j
  let xStart := px * kstride
  let xEnd := min (xStart + ksize) width
  let c := i / newHeight
  loop yStart yEnd (fun res y => loop xStart xEnd (fun res x => r.reduce res (src (c * height + y) x)) res) r.initV

/-- `unpool<Reducer>(data_src, data_pooled, grad_pooled, ksize, kstride)`. -/
def unpool [Zero α] [Add α] [Mul α] (r : Reducer α) (ksize kstride height pooledHeight pooledWidth : ℕ)
    (src pooled grad : Exp α) : Exp α := fun i j =>
  let x := j
  let y := i % height
  let c := i / height
  let vsrc := src (c * height + y) x
  let pyMin := if y < ksize then 0 else (y - ksize + kstride) / kstride
  let pxMin := if x < ksize then 0 else (x - ksize + kstride) / kstride
  let pyMax := min ((y + kstride) / kstride) pooledHeight
  let pxMax := min ((x + kstride) / kstride) pooledWidth
  loop pyMin pyMax (fun val py => loop pxMin pxMax (fun val px =>
    val + r.partialGrad vsrc (pooled (c * pooledHeight + py) px) * grad (c * pooledHeight + py) px) val) 0

/-- `chpool<Reducer>(src, nsize)`. -/
def chpool (r : Reducer α) (nsize channel height : ℕ) (src : Exp α) : Exp α := fun i j =>
  let hnsize := nsize / 2
  let y := i % height
  let i := i / height
  let c := i % channel
  let n := i / channel
  let x := j
  let cstart := if c < hnsize then 0 else c - hnsize
  let cend := min (c + hnsize + 1) channel
  loop cstart cend (fun res cc => r.reduce res (src ((n * channel + cc) * height + y) x)) r.initV

end Exp
end Singa.Mshadow

namespace Singa.LayerBlob

open Mshadow

variable {α : Type}

/-- The elements of a blob, from its pointer on. -/
def dptr [Zero α] (b : LayerBlob α) : ℕ → α := fun k => b.values.getD k 0

/-- A tensor on the elements of a blob, with rows of length `width`. -/
def tensor [Zero α] (b : LayerBlob α) (width : ℕ) : Exp α := fun y x => b.dptr (y * width + x)

/-- `MapPlan` into the rows of a tensor, from the row `start` on. -/
def saveRows [Zero α] (b : LayerBlob α) (width start rows : ℕ) (plan : Exp α) : LayerBlob α where
  shape := b.shape
  values := (List.range b.count).map fun k =>
    if start ≤ k / width ∧ k / width < start + rows then plan (k / width - start) (k % width) else b.dptr k
  sized := by rw [List.length_map, List.length_range, count]

/-- `MapPlan` into a whole tensor. -/
def save (b : LayerBlob α) (width : ℕ) (plan : Exp α) : LayerBlob α where
  shape := b.shape
  values := (List.range b.count).map fun k => plan (k / width) (k % width)
  sized := by rw [List.length_map, List.length_range, count]

end Singa.LayerBlob
