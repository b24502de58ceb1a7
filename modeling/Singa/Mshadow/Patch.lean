import Singa.Base.Grid
import Singa.Base.Pairing
import Singa.Base.Patches
import Singa.Mshadow.Exp

/-!
# Patches of images

The expressions that go back from patches to an image, `pack_col2patch` and
`unpool`, add up over the patches that cover a place. They are the transposes of
those that go from an image to its patches.
-/

namespace Singa.Mshadow
set_option autoImplicit false

open Finset Patches

variable {α : Type}

/-! ## Loops that add up -/

theorem loop_succ {σ : Type} (body : σ → ℕ → σ) (s : σ) (m : ℕ) : loop 0 (m + 1) body s = body (loop 0 m body s) m := by
  unfold loop
  rw [Nat.sub_zero, Nat.sub_zero, List.range'_1_concat, List.foldl_append, Nat.zero_add]
  rfl

theorem loop_congr {σ : Type} {start stop : ℕ} {body body' : σ → ℕ → σ} (s : σ)
    (same : ∀ s i, start ≤ i → i < stop → body s i = body' s i) : loop start stop body s = loop start stop body' s := by
  refine List.foldl_ext _ _ _ fun s i mem => ?_
  have := List.mem_range'_1.mp mem
  exact same s i (by omega) (by omega)

/-- A loop over two states that do not see each other. -/
theorem loop_pair {σ τ : Type} (body : σ → ℕ → σ) (body' : τ → ℕ → τ) (s : σ) (s' : τ) (m : ℕ) :
    loop 0 m (fun (state : σ × τ) n => (body state.1 n, body' state.2 n)) (s, s') = (loop 0 m body s, loop 0 m body' s') := by
  induction m with
  | zero => rfl
  | succ m ih => rw [loop_succ, loop_succ, loop_succ, ih]

theorem loop_map {σ : Type} (body : σ → ℕ → σ) (s : Option σ) (m : ℕ) :
    loop 0 m (fun state n => state.map fun s => body s n) s = s.map (loop 0 m body) := by
  induction m with
  | zero => cases s <;> rfl
  | succ m ih =>
    rw [loop_succ, ih, Option.map_map]
    congr 1
    funext s
    exact (loop_succ body s m).symm

theorem loop_add [AddCommMonoid α] (start stop : ℕ) (f : ℕ → α) (s : α) :
    loop start stop (fun res i => res + f i) s = s + ∑ i ∈ Ico start stop, f i := by
  unfold loop
  rw [sum_Ico_eq_sum_range]
  induction stop - start generalizing start s with
  | zero => simp
  | succ n ih =>
    rw [List.range'_succ, List.foldl_cons, ih, sum_range_succ', add_zero, add_assoc, add_comm (f start)]
    refine congrArg (fun t => s + (t + f start)) (sum_congr rfl fun i _ => ?_)
    rw [add_assoc, add_comm 1 i]

theorem loop_add_loop [AddCommMonoid α] (start stop start' stop' : ℕ) (f : ℕ → ℕ → α) (s : α) :
    loop start stop (fun res i => loop start' stop' (fun res j => res + f i j) res) s =
      s + ∑ i ∈ Ico start stop, ∑ j ∈ Ico start' stop', f i j := by
  have row : (fun (res : α) (i : ℕ) => loop start' stop' (fun res j => res + f i j) res) =
      fun res i => res + ∑ j ∈ Ico start' stop', f i j := by
    funext res i
    exact loop_add start' stop' (f i) res
  rw [row]
  exact loop_add start stop (fun i => ∑ j ∈ Ico start' stop', f i j) s

theorem sumRows_eq [AddCommMonoid α] {rows : ℕ} (some : 0 < rows) (exp : Exp α) (x : ℕ) :
    Exp.sumRows rows exp x = ∑ y ∈ range rows, exp y x := by
  unfold Exp.sumRows
  rw [loop_add, range_eq_Ico, sum_eq_sum_Ico_succ_bot some]

theorem sumallExceptDim1_eq [AddCommMonoid α] (count rows width : ℕ) (exp : Exp α) (c : ℕ) :
    Exp.sumallExceptDim1 count rows width exp c = ∑ n ∈ range count, ∑ x ∈ range width, exp (n * rows + c) x := by
  unfold Exp.sumallExceptDim1
  rw [loop_add, zero_add, ← range_eq_Ico]
  refine sum_congr rfl fun n _ => ?_
  rw [loop_add_loop, zero_add]
  simp

/-! ## Places of patches -/

/-- The patches of an image lie inside it. -/
theorem patch_inside {size stride n p : ℕ} (fits : size ≤ n) (lt : p < (n - size) / stride + 1) :
    p * stride + size ≤ n := by
  have := Nat.mul_le_mul_right stride (Nat.le_of_lt_succ lt)
  have := Nat.div_mul_le_self (n - size) stride
  omega

section Unpack

variable {psize pstride channel height width : ℕ}

/-- What `unpack_patch2col` has in the row of an offset and the column of a patch. -/
theorem unpackPatch2col_at [Zero α] (fitsHeight : psize ≤ height) (fitsWidth : psize ≤ width) (src : Exp α)
    {c n py px dy dx : ℕ} (row : py < (height - psize) / pstride + 1) (column : px < (width - psize) / pstride + 1)
    (offset : dy < psize) (offset' : dx < psize) :
    Exp.unpackPatch2col psize pstride channel height width src ((c * psize + dy) * psize + dx)
        ((n * ((height - psize) / pstride + 1) + py) * ((width - psize) / pstride + 1) + px) =
      src ((n * channel + c) * height + (py * pstride + dy)) (px * pstride + dx) := by
  have below := patch_inside fitsHeight row
  have below' := patch_inside fitsWidth column
  unfold Exp.unpackPatch2col
  dsimp only
  rw [Grid.number_mod offset', Grid.number_div offset', Grid.number_mod offset, Grid.number_div offset, Grid.number_mod column, Grid.number_div column, Grid.number_mod row,
    Grid.number_div row, if_pos ⟨by omega, by omega⟩]

/-- `pack_col2patch` adds up over the patches that cover a place. -/
theorem packCol2patch_at [AddCommMonoid α] (mat : Exp α) {n c y x : ℕ} (channelLt : c < channel) (row : y < height) :
    Exp.packCol2patch psize pstride channel height width mat ((n * channel + c) * height + y) x =
      ∑ py ∈ Ico (first psize pstride y) (last pstride ((height - psize) / pstride + 1) y),
        ∑ px ∈ Ico (first psize pstride x) (last pstride ((width - psize) / pstride + 1) x),
          mat ((c * psize + y - py * pstride) * psize + x - px * pstride)
            ((n * ((height - psize) / pstride + 1) + py) * ((width - psize) / pstride + 1) + px) := by
  unfold Exp.packCol2patch
  dsimp only
  rw [Grid.number_mod row, Grid.number_div row, Grid.number_mod channelLt, Grid.number_div channelLt, loop_add_loop, zero_add]
  rfl

end Unpack

/-! ## Transposes -/

/-- The pairing of two tensors. -/
def Exp.pairing [AddCommMonoid α] [Mul α] (rows width : ℕ) (g d : Exp α) : α :=
  ∑ i ∈ range rows, ∑ j ∈ range width, g i j * d i j

/-- Row by row, then image by image. -/
theorem sum_images {M : Type} [AddCommMonoid M] (images height width : ℕ) (f : ℕ → ℕ → M) :
    ∑ i ∈ range (images * height), ∑ j ∈ range width, f i j =
      ∑ c ∈ range images, ∑ y ∈ range height, ∑ x ∈ range width, f (c * height + y) x :=
  Pairing.sum_grid images height fun i => ∑ j ∈ range width, f i j

/-- The innermost of three sums goes first. -/
theorem sum_rotate {M : Type} [AddCommMonoid M] (a b c : Finset ℕ) (f : ℕ → ℕ → ℕ → M) :
    ∑ i ∈ a, ∑ j ∈ b, ∑ k ∈ c, f i j k = ∑ k ∈ c, ∑ i ∈ a, ∑ j ∈ b, f i j k := by
  calc _ = ∑ i ∈ a, ∑ k ∈ c, ∑ j ∈ b, f i j k := sum_congr rfl fun i _ => sum_comm
    _ = _ := sum_comm

section Transposes

variable [CommSemiring α] {psize pstride channel height width : ℕ}

/-- The pairing with patches, patch by patch. -/
theorem pairing_unpackPatch2col (fitsHeight : psize ≤ height) (fitsWidth : psize ≤ width) {rows columns : ℕ}
    (rows_eq : rows = (height - psize) / pstride + 1) (columns_eq : columns = (width - psize) / pstride + 1)
    (num : ℕ) (src mat : Exp α) :
    Exp.pairing (channel * psize * psize) (num * rows * columns) mat
        (Exp.unpackPatch2col psize pstride channel height width src) =
      ∑ n ∈ range num, ∑ c ∈ range channel, ∑ py ∈ range rows, ∑ px ∈ range columns,
        ∑ dy ∈ range psize, ∑ dx ∈ range psize, mat ((c * psize + dy) * psize + dx) ((n * rows + py) * columns + px) *
          src ((n * channel + c) * height + (py * pstride + dy)) (px * pstride + dx) := by
  subst rows_eq columns_eq
  set rows := (height - psize) / pstride + 1 with rows_eq
  set columns := (width - psize) / pstride + 1 with columns_eq
  set f : ℕ → ℕ → ℕ → ℕ → ℕ → ℕ → α := fun n c py px dy dx =>
    mat ((c * psize + dy) * psize + dx) ((n * rows + py) * columns + px) *
      src ((n * channel + c) * height + (py * pstride + dy)) (px * pstride + dx) with f_eq
  have cells : Exp.pairing (channel * psize * psize) (num * rows * columns) mat
        (Exp.unpackPatch2col psize pstride channel height width src) =
      ∑ c ∈ range channel, ∑ dy ∈ range psize, ∑ dx ∈ range psize, ∑ n ∈ range num, ∑ py ∈ range rows,
        ∑ px ∈ range columns, f n c py px dy dx := by
    unfold Exp.pairing
    rw [Pairing.sum_grid, Pairing.sum_grid]
    refine sum_congr rfl fun c _ => sum_congr rfl fun dy offset => sum_congr rfl fun dx offset' => ?_
    rw [Pairing.sum_grid, Pairing.sum_grid]
    refine sum_congr rfl fun n _ => sum_congr rfl fun py row => sum_congr rfl fun px column => ?_
    rw [unpackPatch2col_at fitsHeight fitsWidth src (mem_range.mp row) (mem_range.mp column) (mem_range.mp offset)
      (mem_range.mp offset')]
  calc _ = _ := cells
    _ = ∑ c ∈ range channel, ∑ n ∈ range num, ∑ dy ∈ range psize, ∑ dx ∈ range psize, ∑ py ∈ range rows,
        ∑ px ∈ range columns, f n c py px dy dx := sum_congr rfl fun c _ => sum_rotate _ _ _ _
    _ = ∑ n ∈ range num, ∑ c ∈ range channel, ∑ dy ∈ range psize, ∑ dx ∈ range psize, ∑ py ∈ range rows,
        ∑ px ∈ range columns, f n c py px dy dx := sum_comm
    _ = ∑ n ∈ range num, ∑ c ∈ range channel, ∑ py ∈ range rows, ∑ dy ∈ range psize, ∑ dx ∈ range psize,
        ∑ px ∈ range columns, f n c py px dy dx := sum_congr rfl fun n _ => sum_congr rfl fun c _ => sum_rotate _ _ _ _
    _ = _ := sum_congr rfl fun n _ => sum_congr rfl fun c _ => sum_congr rfl fun py _ => sum_rotate _ _ _ _

/-- **`pack_col2patch` is the transpose of `unpack_patch2col`**, for every size and stride of the patches and every
number of images. -/
theorem packCol2patch_transposed (pos : 0 < pstride) (fitsHeight : psize ≤ height) (fitsWidth : psize ≤ width)
    (num : ℕ) (src mat : Exp α) :
    Exp.pairing (channel * psize * psize) (num * ((height - psize) / pstride + 1) * ((width - psize) / pstride + 1))
        mat (Exp.unpackPatch2col psize pstride channel height width src) =
      Exp.pairing (num * channel * height) width (Exp.packCol2patch psize pstride channel height width mat) src := by
  rw [pairing_unpackPatch2col fitsHeight fitsWidth rfl rfl]
  unfold Exp.pairing
  rw [sum_images, Pairing.sum_grid]
  refine sum_congr rfl fun n _ => sum_congr rfl fun c channelLt => ?_
  rw [← sum_covering_image pos (fun p => patch_inside fitsHeight) fun p => patch_inside fitsWidth]
  refine sum_congr rfl fun y row => sum_congr rfl fun x _ => ?_
  rw [packCol2patch_at mat (mem_range.mp channelLt) (mem_range.mp row), sum_mul]
  refine sum_congr rfl fun py covers => ?_
  obtain ⟨-, low, -⟩ := (mem_covering pos).mp covers
  rw [sum_mul]
  refine sum_congr rfl fun px covers' => ?_
  obtain ⟨-, low', -⟩ := (mem_covering pos).mp covers'
  rw [Nat.add_sub_assoc low, Nat.add_sub_assoc low', Nat.add_sub_cancel' low, Nat.add_sub_cancel' low']

/-- `unpool` adds up over the patches that cover a place. -/
theorem unpool_at (r : Reducer α) {ksize kstride pooledHeight pooledWidth : ℕ} (src pooled grad : Exp α) {c y x : ℕ}
    (row : y < height) :
    Exp.unpool r ksize kstride height pooledHeight pooledWidth src pooled grad (c * height + y) x =
      ∑ py ∈ Ico (first ksize kstride y) (last kstride pooledHeight y),
        ∑ px ∈ Ico (first ksize kstride x) (last kstride pooledWidth x),
          r.partialGrad (src (c * height + y) x) (pooled (c * pooledHeight + py) px) * grad (c * pooledHeight + py) px := by
  unfold Exp.unpool
  dsimp only
  rw [Grid.number_mod row, Grid.number_div row, loop_add_loop, zero_add]
  rfl

/-- **`unpool` hands the gradient of a patch to its places**, as `PartialGrad` weighs them. -/
theorem pairing_unpool (r : Reducer α) {ksize kstride : ℕ} (pos : 0 < kstride) (fitsHeight : ksize ≤ height)
    (fitsWidth : ksize ≤ width) {pooledHeight pooledWidth : ℕ} (rows_eq : pooledHeight = (height - ksize) / kstride + 1)
    (columns_eq : pooledWidth = (width - ksize) / kstride + 1) (images : ℕ) (src pooled grad d : Exp α) :
    Exp.pairing (images * height) width (Exp.unpool r ksize kstride height pooledHeight pooledWidth src pooled grad) d =
      ∑ c ∈ range images, ∑ py ∈ range pooledHeight, ∑ px ∈ range pooledWidth, grad (c * pooledHeight + py) px *
        ∑ dy ∈ range ksize, ∑ dx ∈ range ksize,
          r.partialGrad (src (c * height + (py * kstride + dy)) (px * kstride + dx)) (pooled (c * pooledHeight + py) px) *
            d (c * height + (py * kstride + dy)) (px * kstride + dx) := by
  subst rows_eq columns_eq
  unfold Exp.pairing
  rw [sum_images]
  refine sum_congr rfl fun c _ => ?_
  simp only [mul_sum]
  rw [← sum_covering_image pos (fun p => patch_inside fitsHeight) fun p => patch_inside fitsWidth]
  refine sum_congr rfl fun y row => sum_congr rfl fun x _ => ?_
  rw [unpool_at r src pooled grad (mem_range.mp row), sum_mul]
  refine sum_congr rfl fun py covers => ?_
  obtain ⟨-, low, -⟩ := (mem_covering pos).mp covers
  rw [sum_mul]
  refine sum_congr rfl fun px covers' => ?_
  obtain ⟨-, low', -⟩ := (mem_covering pos).mp covers'
  rw [Nat.add_sub_cancel' low, Nat.add_sub_cancel' low']
  ring

end Transposes

end Singa.Mshadow
