import Singa.Base.Velocity
import Singa.Mshadow.Pool
import Singa.Mshadow.Tensor

/-!
# Expressions that move

The expressions that the layers use are linear, or products: their velocities
are given by expressions again.
-/

namespace Singa.Mshadow
set_option autoImplicit false

open Finset Velocity

variable {t : ℝ}

/-- At the time `t` the elements of a tensor have the velocities `dp`. -/
def Exp.Moves (t : ℝ) (p : ℝ → Exp ℝ) (dp : Exp ℝ) : Prop := ∀ i, Velocity.Moves t (fun s => p s i) (dp i)

/-- At the time `t` the elements of a blob have the velocities `dx`. -/
def BlobMoves (t : ℝ) (b : ℝ → LayerBlob ℝ) (dx : ℕ → ℝ) : Prop := Moves t (fun s => (b s).dptr) dx

/-- A blob that moves is a matrix that moves. -/
theorem BlobMoves.tensor {b : ℝ → LayerBlob ℝ} {dx : ℕ → ℝ} (moves : BlobMoves t b dx) (width : ℕ) :
    Exp.Moves t (fun s => (b s).tensor width) fun y x => dx (y * width + x) := fun y x => moves (y * width + x)

/-- A blob moves as the plan that is mapped into it. -/
theorem BlobMoves.of_tensor {rows width : ℕ} {b : ℝ → LayerBlob ℝ} {p : ℝ → Exp ℝ} {dp : Exp ℝ}
    (size : ∀ s, (b s).count = rows * width) (same : ∀ s, ∀ y < rows, ∀ x < width, (b s).tensor width y x = p s y x)
    (moves : ∀ y < rows, ∀ x < width, HasDerivAt (fun s => p s y x) (dp y x) t) :
    ∃ dx, BlobMoves t b dx ∧ ∀ g : LayerBlob ℝ,
      Pairing.pairing (rows * width) g.dptr dx = Exp.pairing rows width (g.tensor width) dp := by
  refine ⟨fun k => if k < rows * width then dp (k / width) (k % width) else 0, fun k => ?_, fun g => ?_⟩
  · dsimp only
    split
    · next lt =>
      have pos : 0 < width := Nat.pos_of_ne_zero fun zero => by simp [zero] at lt
      obtain ⟨number, column⟩ := Grid.cell_of_number k pos
      have row := Grid.row_lt lt
      have here : (fun s => (b s).dptr k) = fun s => p s (k / width) (k % width) := by
        funext s
        rw [← same s _ row _ column, LayerBlob.tensor, number]
      rw [here]
      exact moves _ row _ column
    · next past =>
      have here : (fun s => (b s).dptr k) = fun _ => 0 := by
        funext s
        exact LayerBlob.dptr_of_le _ (by rw [size]; omega)
      rw [here]
      exact hasDerivAt_const t 0
  · rw [pairing_tensor]
    refine Exp.pairing_congr (fun _ _ _ _ => rfl) fun y row x column => ?_
    rw [if_pos (Grid.number_lt row column), Grid.number_div column, Grid.number_mod column]

namespace Exp.Moves

variable {p q : ℝ → Exp ℝ} {dp dq : Exp ℝ}

/-- The rows of one image of a batch. -/
theorem sub (moves : Exp.Moves t p dp) (rows n : ℕ) : Exp.Moves t (fun s => (p s).sub rows n) (dp.sub rows n) :=
  fun i j => moves (n * rows + i) j

/-- The product rule. -/
theorem dot (left : Exp.Moves t p dp) (right : Exp.Moves t q dq) (inner : ℕ) :
    Exp.Moves t (fun s => Exp.dot inner (p s) (q s)) fun i j => Exp.dot inner dp (q t) i j + Exp.dot inner (p t) dq i j := by
  intro i j
  unfold Exp.dot
  dsimp only
  rw [← sum_add_distrib]
  exact HasDerivAt.fun_sum fun k _ => (left i k).mul (right k j)

/-- A bias with an element for each row. -/
theorem broadcast1 {b : ℝ → ℕ → ℝ} {db : ℕ → ℝ} (moves : Velocity.Moves t b db) (length : ℕ) :
    Exp.Moves t (fun s => Exp.broadcast1 length (b s)) (Exp.broadcast1 length db) := fun i _ => moves (i / 1 % length)

/-- The columns hold elements of the image, or the zeros around it. -/
theorem unpackPatch2col (moves : Exp.Moves t p dp) (psize pstride channel height width : ℕ) :
    Exp.Moves t (fun s => Exp.unpackPatch2col psize pstride channel height width (p s))
      (Exp.unpackPatch2col psize pstride channel height width dp) := by
  intro i j
  unfold Exp.unpackPatch2col
  dsimp only
  split
  · exact moves _ _
  · exact hasDerivAt_const t 0

/-- The border stays as it is. -/
theorem pad (moves : Exp.Moves t p dp) (border height width : ℕ) :
    Exp.Moves t (fun s => Exp.pad border height width (p s)) (Exp.pad border height width dp) := by
  intro i j
  unfold Exp.pad
  dsimp only
  split
  · exact hasDerivAt_const t 0
  · split
    · exact moves _ _
    · exact hasDerivAt_const t 0

end Exp.Moves

/-- A sum that a loop adds up moves as its terms do. -/
theorem loop_moves {start stop : ℕ} {f : ℝ → ℕ → ℝ} {df : ℕ → ℝ} (moves : ∀ i, HasDerivAt (fun s => f s i) (df i) t) :
    HasDerivAt (fun s => loop start stop (fun res i => res + f s i) 0) (loop start stop (fun res i => res + df i) 0) t := by
  simp only [loop_add, zero_add]
  exact HasDerivAt.fun_sum fun i _ => moves i

namespace Exp.Moves

variable {p : ℝ → Exp ℝ} {dp : Exp ℝ}

/-- The sums over neighbouring channels. -/
theorem chpool (moves : Exp.Moves t p dp) (nsize channel height : ℕ) :
    Exp.Moves t (fun s => Exp.chpool Reducer.sum nsize channel height (p s))
      (Exp.chpool Reducer.sum nsize channel height dp) :=
  fun _ _ => loop_moves fun _ => moves _ _

end Exp.Moves
end Singa.Mshadow
