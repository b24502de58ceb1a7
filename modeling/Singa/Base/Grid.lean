import Mathlib.Tactic

/-!
# Rows numbered one after the other

The cell `(i, j)` of a grid with rows of length `n` has the number `i * n + j`.
A double loop over the cells is a loop over their numbers, and cutting the
numbers into blocks of `q` cuts no row apart exactly when `q` divides `n`.
-/

namespace Singa.Grid
set_option autoImplicit false

variable {σ : Type} {n q g i k p rows blocks : Nat}

theorem number_lt (row : g < rows) (column : i < n) : g * n + i < rows * n := by
  calc g * n + i < g * n + n := by omega
    _ = (g + 1) * n := by ring
    _ ≤ rows * n := Nat.mul_le_mul_right n row

/-- The row of a number. -/
theorem number_div (column : i < n) : (g * n + i) / n = g := by
  rw [Nat.mul_comm, Nat.mul_add_div (by omega), Nat.div_eq_of_lt column, Nat.add_zero]

/-- The column of a number. -/
theorem number_mod (column : i < n) : (g * n + i) % n = i := by
  rw [Nat.mul_comm, Nat.mul_add_mod, Nat.mod_eq_of_lt column]

/-- The cell with the number `k`. -/
theorem cell_of_number (k : Nat) (pos : 0 < n) : k / n * n + k % n = k ∧ k % n < n :=
  ⟨by rw [Nat.mul_comm, Nat.div_add_mod], Nat.mod_lt k pos⟩

theorem row_lt (lt : k < rows * n) : k / n < rows := by
  apply Nat.div_lt_of_lt_mul
  rwa [Nat.mul_comm]

theorem number_inj {g' i' : Nat} (column : i < n) (column' : i' < n) (same : g * n + i = g' * n + i') :
    g = g' ∧ i = i' := by
  have row : (g * n + i) / n = g := number_div column
  have remainder : (g * n + i) % n = i := number_mod column
  rw [same, number_div column'] at row
  rw [same, number_mod column'] at remainder
  exact ⟨row.symm, remainder.symm⟩

/-- A loop over numbers in closed form. -/
theorem foldl_range_eq (f : σ → Nat → σ) (state : Nat → σ) (bound : Nat)
    (pass : ∀ k < bound, f (state k) k = state (k + 1)) : (List.range bound).foldl f (state 0) = state bound := by
  induction bound with
  | zero => simp
  | succ bound ih =>
    rw [List.range_succ, List.foldl_append, ih fun k lt => pass k (lt.trans (Nat.lt_succ_self bound))]
    exact pass bound (Nat.lt_succ_self bound)

/-- A double loop over the cells goes through their numbers. -/
theorem foldl_cells (f : Nat → σ → Nat → σ) (s : σ) (rows : Nat) :
    (List.range rows).foldl (fun s i => (List.range n).foldl (f i) s) s =
      (List.range (rows * n)).foldl (fun s k => f (k / n) s (k % n)) s := by
  induction rows with
  | zero => simp
  | succ rows ih =>
    have row : ∀ s, (List.range n).foldl (f rows) s =
        ((List.range n).map (rows * n + ·)).foldl (fun s k => f (k / n) s (k % n)) s := by
      intro s
      rw [List.foldl_map]
      apply List.foldl_ext
      intro s j mem
      have lt := List.mem_range.mp mem
      rw [number_div lt, number_mod lt]
    rw [List.range_succ, List.foldl_append, ih, Nat.succ_mul, List.range_add, List.foldl_append, ← row]
    rfl

/-- The cells with the numbers from `k` on, as long as the row of `k` lasts. -/
theorem mem_block_iff (inside : k % n + q ≤ n) (some : 0 < q) :
    (g = k / n ∧ k % n ≤ i ∧ i < k % n + q) ↔ i < n ∧ k ≤ g * n + i ∧ g * n + i < k + q := by
  have pos : 0 < n := by omega
  obtain ⟨number, -⟩ := cell_of_number k pos
  constructor
  · rintro ⟨rfl, low, high⟩
    omega
  · rintro ⟨column, low, high⟩
    have row : g = k / n := by
      have upper : g * n < (k / n + 1) * n := by
        rw [Nat.succ_mul]
        omega
      have lower : k / n * n < (g + 1) * n := by
        rw [Nat.succ_mul]
        omega
      have := Nat.lt_of_mul_lt_mul_right upper
      have := Nat.lt_of_mul_lt_mul_right lower
      omega
    subst row
    omega

/-- The `q` cells from the number `k` on, without regard to the end of the row. -/
def cells (n q k : Nat) : List (Nat × Nat) := (List.range' (k % n) q).map (k / n, ·)

theorem mem_cells : (g, i) ∈ cells n q k ↔ g = k / n ∧ k % n ≤ i ∧ i < k % n + q := by
  simp only [cells, List.mem_map, List.mem_range', Prod.mk.injEq]
  constructor
  · rintro ⟨_, ⟨j, lt, rfl⟩, rfl, rfl⟩
    omega
  · rintro ⟨rfl, low, high⟩
    exact ⟨i, ⟨i - k % n, by omega, by omega⟩, rfl, rfl⟩

/-- The number of the block of `q` numbers that `k` is in. -/
theorem block_iff (some : 0 < q) : k / q = p ↔ p * q ≤ k ∧ k < p * q + q := by
  rw [Nat.div_eq_iff some]
  omega

/-- **The cells of a block are those that its numbers say exactly when it stays inside one row.** -/
theorem cells_exact_iff (some : 0 < q) (full : blocks * q = rows * n) (lt : p < blocks) :
    (∀ g i, (g, i) ∈ cells n q (p * q) ↔ g < rows ∧ i < n ∧ (g * n + i) / q = p) ↔ p * q % n + q ≤ n := by
  constructor
  · intro exact_
    have last : (p * q / n, p * q % n + (q - 1)) ∈ cells n q (p * q) := mem_cells.mpr ⟨rfl, by omega, by omega⟩
    obtain ⟨-, column, -⟩ := (exact_ _ _).mp last
    omega
  · intro inside g i
    rw [mem_cells, mem_block_iff inside some, block_iff some]
    constructor
    · rintro ⟨column, low, high⟩
      refine ⟨?_, column, low, high⟩
      have number : g * n + i < rows * n := by
        have := Nat.mul_le_mul_right q (Nat.succ_le_of_lt lt)
        rw [Nat.succ_mul, full] at this
        omega
      have := row_lt number
      rwa [number_div column] at this
    · rintro ⟨-, column, low, high⟩
      exact ⟨column, low, high⟩

/-- No cell has its number in a block after the last one. -/
theorem block_lt (some : 0 < q) (full : blocks * q = rows * n) (row : g < rows) (column : i < n) :
    (g * n + i) / q < blocks := by
  rw [Nat.div_lt_iff_lt_mul some, full]
  exact number_lt row column

/-- **Blocks of `q` cut no row apart exactly when `q` divides the length of the rows.** -/
theorem aligned_iff (some : 0 < q) (pos : 0 < n) (full : blocks * q = rows * n) (nonempty : 0 < rows) :
    (∀ p < blocks, p * q % n + q ≤ n) ↔ q ∣ n := by
  constructor
  · intro inside
    by_contra rest
    -- the block that the first row ends in
    have remainder : 0 < n % q := Nat.pos_of_ne_zero fun zero => rest (Nat.dvd_of_mod_eq_zero zero)
    have first : n / q * q + n % q = n := by rw [Nat.mul_comm, Nat.div_add_mod]
    have small : n % q < q := Nat.mod_lt n some
    have below : n / q < blocks := by
      apply Nat.lt_of_mul_lt_mul_right (a := q)
      have := Nat.le_mul_of_pos_left n nonempty
      omega
    have cut := inside (n / q) below
    rw [Nat.mod_eq_of_lt (by omega)] at cut
    omega
  · rintro ⟨m, rfl⟩ p -
    have lt : p % m < m := Nat.mod_lt p (Nat.pos_of_mul_pos_left pos)
    rw [Nat.mul_comm p q, Nat.mul_mod_mul_left]
    calc q * (p % m) + q = q * (p % m + 1) := by ring
      _ ≤ q * m := Nat.mul_le_mul_left q lt

end Singa.Grid
