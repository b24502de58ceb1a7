import Mathlib.Data.List.Basic
import Mathlib.Tactic

/-!
# Block memory

A memory is a family of unbounded blocks of cells; a pointer is a block and an
offset in cells. Blocks are never freed and a fresh block is zeroed, so the only
facts needed are what a write does to a later read: the window written reads
back (`read_write_self`), a window apart from it is untouched (`read_write_apart`).
-/

namespace Memory
set_option autoImplicit false

variable {α : Type}

structure Ptr where
  blk : Nat
  off : Nat
  deriving DecidableEq, Repr

/-- Pointer arithmetic inside a block. -/
def Ptr.add (p : Ptr) (n : Nat) : Ptr := ⟨p.blk, p.off + n⟩

@[simp] theorem Ptr.add_blk (p : Ptr) (n : Nat) : (p.add n).blk = p.blk := rfl

@[simp] theorem Ptr.add_off (p : Ptr) (n : Nat) : (p.add n).off = p.off + n := rfl

/-- The windows `[p, p + n)` and `[q, q + k)` do not meet. -/
def Apart (p : Ptr) (n : Nat) (q : Ptr) (k : Nat) : Prop :=
  p.blk = q.blk → p.off + n ≤ q.off ∨ q.off + k ≤ p.off

theorem Apart.of_blk {p q : Ptr} {n k : Nat} (h : p.blk ≠ q.blk) : Apart p n q k :=
  fun same => absurd same h

/-- Parts of windows that do not meet do not meet. -/
theorem Apart.part {p q : Ptr} {n k a b : Nat} (h : Apart p n q k) {i j : Nat} (inside : i + a ≤ n)
    (inside' : j + b ≤ k) : Apart (p.add i) a (q.add j) b := by
  intro same
  have := h same
  simp only [Ptr.add_off]
  omega

/-- Cells of every block, and the first block not allocated yet. -/
structure Mem (α : Type) where
  cells : Nat → Nat → α
  next : Nat

namespace Mem

/-- The `n` cells from `p` on. -/
def read (m : Mem α) (p : Ptr) (n : Nat) : List α :=
  (List.range n).map fun i => m.cells p.blk (p.off + i)

/-- Overwrite the cells from `p` on with `vs`. -/
def write (m : Mem α) (p : Ptr) (vs : List α) : Mem α :=
  { m with cells := fun b o =>
      if b = p.blk ∧ p.off ≤ o then (vs[o - p.off]?).getD (m.cells b o) else m.cells b o }

/-- A fresh block of zeros. -/
def alloc [Zero α] (m : Mem α) : Ptr × Mem α :=
  (⟨m.next, 0⟩, ⟨Function.update m.cells m.next fun _ => 0, m.next + 1⟩)

@[simp] theorem read_length (m : Mem α) (p : Ptr) (n : Nat) : (m.read p n).length = n := by
  simp [read]

theorem getElem?_read (m : Mem α) (p : Ptr) {n i : Nat} (h : i < n) :
    (m.read p n)[i]? = some (m.cells p.blk (p.off + i)) := by
  simp [read, h]

@[simp] theorem getElem_read (m : Mem α) (p : Ptr) {n i : Nat} (h : i < (m.read p n).length) :
    (m.read p n)[i] = m.cells p.blk (p.off + i) := by
  simp [read]

/-- What was written reads back. -/
@[simp] theorem read_write_self (m : Mem α) (p : Ptr) (vs : List α) :
    (m.write p vs).read p vs.length = vs := by
  apply List.ext_getElem?
  intro i
  by_cases h : i < vs.length
  · rw [getElem?_read _ _ h]
    simp [write, h]
  · rw [List.getElem?_eq_none (by simpa using h), List.getElem?_eq_none (by simpa using h)]

theorem read_write_of_length (m : Mem α) {p : Ptr} {vs : List α} {n : Nat} (length : vs.length = n) :
    (m.write p vs).read p n = vs := by
  rw [← length, read_write_self]

/-- A window apart from the write reads as before. -/
theorem read_write_apart (m : Mem α) {p q : Ptr} {n : Nat} {vs : List α}
    (h : Apart p n q vs.length) : (m.write q vs).read p n = m.read p n := by
  apply List.map_congr_left
  intro i hi
  have bound := List.mem_range.mp hi
  simp only [write]
  split
  · rename_i inside
    obtain ⟨same, low⟩ := inside
    rcases h same with below | above
    · omega
    · rw [List.getElem?_eq_none (by omega)]
      rfl
  · rfl

/-- Writing back what is there changes nothing. -/
theorem write_read (m : Mem α) (p : Ptr) (n : Nat) : m.write p (m.read p n) = m := by
  cases m with
  | mk cells next =>
    simp only [write, mk.injEq, and_true]
    funext b o
    split
    · rename_i inside
      obtain ⟨rfl, low⟩ := inside
      by_cases lt : o - p.off < n
      · rw [getElem?_read _ _ lt, Option.getD_some, Nat.add_sub_cancel' low]
      · rw [List.getElem?_eq_none (by simpa using lt), Option.getD_none]
    · rfl

/-- A window splits into consecutive windows. -/
theorem read_add (m : Mem α) (p : Ptr) (a b : Nat) :
    m.read p (a + b) = m.read p a ++ m.read (p.add a) b := by
  simp [read, List.range_add, Nat.add_assoc]

/-- A window read piece by piece. -/
theorem read_pieces (m : Mem α) (p : Ptr) {sizes : List Nat} {values : List α} (length : values.length = sizes.sum)
    (each : ∀ i (lt : i < sizes.length), m.read (p.add (sizes.take i).sum) sizes[i] =
      (values.drop (sizes.take i).sum).take sizes[i]) : m.read p sizes.sum = values := by
  induction sizes generalizing p values with
  | nil =>
    rw [List.sum_nil] at length ⊢
    rw [List.length_eq_zero_iff.mp length]
    rfl
  | cons size sizes ih =>
    rw [List.sum_cons] at length ⊢
    have first := each 0 (by simp)
    have rest : m.read (p.add size) sizes.sum = values.drop size := by
      apply ih _ (by rw [List.length_drop]; omega)
      intro i lt
      have piece := each (i + 1) (by simpa using lt)
      simpa [Ptr.add, Nat.add_assoc] using piece
    rw [read_add, rest]
    simp only [List.take_zero, List.sum_nil, List.getElem_cons_zero, List.drop_zero] at first
    rw [show p = p.add 0 from rfl, first, List.take_append_drop]

/-- A fresh block is apart from every block allocated before. -/
theorem read_alloc [Zero α] (m : Mem α) {p : Ptr} (n : Nat) (h : p.blk < m.next) :
    m.alloc.2.read p n = m.read p n := by
  apply List.map_congr_left
  intro i _
  simp only [alloc]
  rw [Function.update_of_ne (by omega)]

end Mem
end Memory
