import Mathlib.Data.List.GetD
import Singa.Base.Grid
import Singa.Base.Pairing
import Singa.Mshadow.Patch

/-!
# Tensors on blobs

A plan that is mapped into a tensor is what the tensor reads afterwards. The
products of matrices have the transposes that `ComputeGradient` uses.
-/

namespace Singa.LayerBlob
set_option autoImplicit false

open Mshadow Finset

variable {α : Type}

@[simp] theorem shape_save (b : LayerBlob α) (width : ℕ) (plan : Exp α) : (b.save width plan).shape = b.shape := rfl

@[simp] theorem count_save (b : LayerBlob α) (width : ℕ) (plan : Exp α) : (b.save width plan).count = b.count := rfl

@[simp] theorem shape_saveRows [Zero α] (b : LayerBlob α) (width start rows : ℕ) (plan : Exp α) :
    (b.saveRows width start rows plan).shape = b.shape := rfl

@[simp] theorem count_saveRows [Zero α] (b : LayerBlob α) (width start rows : ℕ) (plan : Exp α) :
    (b.saveRows width start rows plan).count = b.count := rfl

variable [Zero α]

theorem dptr_of_le (b : LayerBlob α) {k : ℕ} (past : b.count ≤ k) : b.dptr k = 0 :=
  List.getD_eq_default _ _ (by rwa [b.length_values])

theorem dptr_save (b : LayerBlob α) (width : ℕ) (plan : Exp α) {k : ℕ} (lt : k < b.count) :
    (b.save width plan).dptr k = plan (k / width) (k % width) := by
  unfold dptr save
  rw [List.getD_eq_getElem _ _ (by rwa [List.length_map, List.length_range])]
  simp

theorem dptr_saveRows (b : LayerBlob α) (width start rows : ℕ) (plan : Exp α) {k : ℕ} (lt : k < b.count) :
    (b.saveRows width start rows plan).dptr k =
      if start ≤ k / width ∧ k / width < start + rows then plan (k / width - start) (k % width) else b.dptr k := by
  conv_lhs => unfold dptr
  unfold saveRows
  rw [List.getD_eq_getElem _ _ (by rwa [List.length_map, List.length_range])]
  simp

/-- The row and column of a tensor that has been mapped into. -/
theorem tensor_save (b : LayerBlob α) {rows width y x : ℕ} (plan : Exp α) (size : b.count = rows * width) (row : y < rows)
    (column : x < width) : (b.save width plan).tensor width y x = plan y x := by
  unfold tensor
  rw [dptr_save b width plan (size ▸ Grid.number_lt row column), Grid.number_div column, Grid.number_mod column]

theorem dptr_mem {b : LayerBlob α} {k : ℕ} (lt : k < b.count) : b.dptr k ∈ b.values := by
  have place : k < b.values.length := by rwa [b.length_values]
  unfold dptr
  rw [List.getD_eq_getElem _ _ place]
  exact List.getElem_mem place

/-- A blob is known by its shape and its elements. -/
theorem ext_dptr {b b' : LayerBlob α} (shape : b.shape = b'.shape) (same : ∀ k < b.count, b.dptr k = b'.dptr k) : b = b' := by
  have counts : b.count = b'.count := by rw [count, count, shape]
  refine ext shape (List.ext_getElem (by rw [b.length_values, b'.length_values, counts]) fun k lt lt' => ?_)
  have here := same k (by rwa [← b.length_values])
  unfold dptr at here
  rwa [List.getD_eq_getElem _ _ lt, List.getD_eq_getElem _ _ lt'] at here

/-! ## Loops that fill a tensor -/

/-- `dst[n] = p n` for one `n` after the other: `dst` has all of them afterwards. -/
theorem loop_saveRows (b : LayerBlob α) {count rows width : ℕ} (size : b.count = count * rows * width) (p : ℕ → Exp α) :
    ∀ m ≤ count, (loop 0 m (fun b n => b.saveRows width (n * rows) rows (p n)) b).shape = b.shape ∧
      ∀ n < m, ∀ i < rows, ∀ x < width,
        (loop 0 m (fun b n => b.saveRows width (n * rows) rows (p n)) b).tensor width (n * rows + i) x = p n i x := by
  intro m
  induction m with
  | zero => exact fun _ => ⟨rfl, fun n lt => absurd lt (Nat.not_lt_zero n)⟩
  | succ m ih =>
    intro le
    obtain ⟨shape, filled⟩ := ih (by omega)
    rw [loop_succ]
    refine ⟨shape, fun n lt i row x column => ?_⟩
    have place : n * rows + i < count * rows := Grid.number_lt (by omega) row
    unfold tensor
    rw [dptr_saveRows _ _ _ _ _ (by rw [LayerBlob.count, shape, ← LayerBlob.count, size]; exact Grid.number_lt place column),
      Grid.number_div column, Grid.number_mod column]
    split
    · next here =>
      have : m ≤ n := by
        by_contra before
        have := Nat.mul_le_mul_right rows (show n + 1 ≤ m by omega)
        rw [Nat.succ_mul] at this
        omega
      obtain rfl : n = m := by omega
      rw [Nat.add_sub_cancel_left]
    · next elsewhere =>
      have other : n ≠ m := fun same => elsewhere (by subst same; omega)
      exact filled n (by omega) i row x column

/-- `dst += q n` for one `n` after the other. -/
theorem loop_save_add [Add α] (b : LayerBlob α) (width : ℕ) (q : ℕ → Exp α) (m : ℕ) :
    (loop 0 m (fun b n => b.save width fun i j => b.tensor width i j + q n i j) b).shape = b.shape := by
  induction m with
  | zero => rfl
  | succ m ih => rwa [loop_succ]

theorem tensor_loop_save_add {M : Type} [AddCommMonoid M] (b : LayerBlob M) {rows width : ℕ} (size : b.count = rows * width)
    (q : ℕ → Exp M) {i x : ℕ} (row : i < rows) (column : x < width) (m : ℕ) :
    (loop 0 m (fun b n => b.save width fun i j => b.tensor width i j + q n i j) b).tensor width i x =
      b.tensor width i x + ∑ n ∈ range m, q n i x := by
  induction m with
  | zero => rw [range_zero, sum_empty, add_zero]; rfl
  | succ m ih =>
    have shape := loop_save_add b width q m
    rw [loop_succ, tensor_save _ _ (by rw [LayerBlob.count, shape]; exact size) row column, ih, sum_range_succ, add_assoc]

end Singa.LayerBlob

namespace Singa.Mshadow
set_option autoImplicit false

open Finset Pairing

variable {α : Type} [CommSemiring α]

/-- The pairing of two blobs is that of their tensors. -/
theorem pairing_tensor (g : LayerBlob α) (d : ℕ → α) (rows width : ℕ) :
    pairing (rows * width) g.dptr d = Exp.pairing rows width (g.tensor width) fun y x => d (y * width + x) :=
  pairing_grid rows width g.dptr d

theorem Exp.pairing_congr {rows width : ℕ} {g g' d d' : Exp α} (left : ∀ y < rows, ∀ x < width, g y x = g' y x)
    (right : ∀ y < rows, ∀ x < width, d y x = d' y x) : Exp.pairing rows width g d = Exp.pairing rows width g' d' := by
  refine sum_congr rfl fun y row => sum_congr rfl fun x column => ?_
  rw [left y (mem_range.mp row) x (mem_range.mp column), right y (mem_range.mp row) x (mem_range.mp column)]

theorem Exp.pairing_add {rows width : ℕ} (g d d' : Exp α) :
    Exp.pairing rows width g (fun y x => d y x + d' y x) = Exp.pairing rows width g d + Exp.pairing rows width g d' := by
  unfold Exp.pairing
  simp only [mul_add, sum_add_distrib]

theorem Exp.pairing_mul_left (rows width : ℕ) (g d : Exp α) (c : α) :
    Exp.pairing rows width (fun y x => g y x * c) d = Exp.pairing rows width g d * c := by
  unfold Exp.pairing
  simp only [sum_mul]
  exact sum_congr rfl fun _ _ => sum_congr rfl fun _ _ => by ring

theorem Exp.pairing_mul_right (rows width : ℕ) (g d : Exp α) (c : α) :
    Exp.pairing rows width g (fun y x => d y x * c) = Exp.pairing rows width g d * c := by
  unfold Exp.pairing
  simp only [sum_mul, mul_assoc]

/-- A pairing image by image. -/
theorem Exp.pairing_images (images height width : ℕ) (g d : Exp α) :
    Exp.pairing (images * height) width g d =
      ∑ n ∈ range images, Exp.pairing height width (g.sub height n) (d.sub height n) :=
  sum_images images height width _

theorem Exp.pairing_sum (s : Finset ℕ) {rows width : ℕ} (g : ℕ → Exp α) (d : Exp α) :
    Exp.pairing rows width (fun y x => ∑ n ∈ s, g n y x) d = ∑ n ∈ s, Exp.pairing rows width (g n) d := by
  unfold Exp.pairing
  simp only [sum_mul]
  exact sum_rotate _ _ _ _

theorem Exp.pairing_comm (rows width : ℕ) (g d : Exp α) : Exp.pairing rows width g d = Exp.pairing rows width d g :=
  sum_congr rfl fun _ _ => sum_congr rfl fun _ _ => mul_comm _ _

/-- The transpose of a product in its left factor. -/
theorem pairing_dot_left (rows inner width : ℕ) (g a b : Exp α) :
    Exp.pairing rows width g (Exp.dot inner a b) = Exp.pairing rows inner (Exp.dot width g b.T) a := by
  unfold Exp.pairing Exp.dot Exp.T
  refine sum_congr rfl fun i _ => ?_
  simp only [mul_sum, sum_mul]
  rw [sum_comm]
  refine sum_congr rfl fun k _ => sum_congr rfl fun j _ => ?_
  ring

/-- The transpose of a product in its right factor. -/
theorem pairing_dot_right (rows inner width : ℕ) (g a b : Exp α) :
    Exp.pairing rows width g (Exp.dot inner a b) = Exp.pairing inner width (Exp.dot rows a.T g) b := by
  unfold Exp.pairing Exp.dot Exp.T
  simp only [mul_sum, sum_mul]
  rw [sum_rotate]
  refine sum_congr rfl fun k _ => ?_
  rw [sum_comm]
  refine sum_congr rfl fun j _ => sum_congr rfl fun i _ => ?_
  ring

/-- The transpose of `repmat`. -/
theorem pairing_repmat {rows : ℕ} (some : 0 < rows) (width : ℕ) (g : Exp α) (b : ℕ → α) :
    Exp.pairing rows width g (Exp.repmat b) = pairing width (Exp.sumRows rows g) b := by
  unfold Exp.pairing Exp.repmat pairing
  rw [sum_comm]
  refine sum_congr rfl fun x _ => ?_
  rw [sumRows_eq some, sum_mul]

/-- The transpose of `broadcast<1>`. -/
theorem pairing_broadcast1 (count rows width : ℕ) (g : Exp α) (b : ℕ → α) :
    Exp.pairing (count * rows) width g (Exp.broadcast1 rows b) = pairing rows (Exp.sumallExceptDim1 count rows width g) b := by
  unfold Exp.pairing Exp.broadcast1 pairing
  rw [sum_images, sum_comm]
  refine sum_congr rfl fun c lt => ?_
  rw [sumallExceptDim1_eq, sum_mul]
  refine sum_congr rfl fun n _ => ?_
  rw [sum_mul]
  refine sum_congr rfl fun x _ => ?_
  rw [Nat.div_one, Grid.number_mod (mem_range.mp lt)]

end Singa.Mshadow
