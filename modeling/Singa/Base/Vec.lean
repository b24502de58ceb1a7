import Mathlib.Algebra.Field.Basic
import Mathlib.Algebra.BigOperators.Group.List.Basic
import Mathlib.Tactic

/-!
# Lists as vectors

Programs add, subtract and scale arrays element by element. `coord` reads a list
as a function that is 0 past its end, so that such loops become the pointwise
operations of functions and a list is determined by its length and coordinates.
-/

namespace Vec
set_option autoImplicit false

variable {α : Type*}

/-- The `i`-th element, 0 past the end. -/
def coord [Zero α] (l : List α) (i : Nat) : α := l.getD i 0

/-- Inside the list a coordinate is an element. -/
theorem coord_of_lt [Zero α] {l : List α} {i : Nat} (h : i < l.length) : coord l i = l[i] := by
  simp [coord, h]

/-- Past the end there are zeros. -/
theorem coord_of_le [Zero α] {l : List α} {i : Nat} (h : l.length ≤ i) : coord l i = 0 := by
  simp [coord, h]

/-- A loop that adds two arrays adds vectors. -/
theorem coord_zipWith_add [AddZeroClass α] {l l' : List α} (length : l.length = l'.length) :
    coord (List.zipWith (· + ·) l l') = coord l + coord l' := by
  funext i
  rcases Nat.lt_or_ge i l.length with lt | ge
  · have lt' : i < l'.length := length ▸ lt
    simp [coord, lt, lt']
  · simp [coord, ge, length ▸ ge]

/-- A loop that subtracts two arrays subtracts vectors. -/
theorem coord_zipWith_sub [SubtractionMonoid α] {l l' : List α} (length : l.length = l'.length) :
    coord (List.zipWith (· - ·) l l') = coord l - coord l' := by
  funext i
  rcases Nat.lt_or_ge i l.length with lt | ge
  · have lt' : i < l'.length := length ▸ lt
    simp [coord, lt, lt']
  · simp [coord, ge, length ▸ ge]

/-- A loop that divides an array scales a vector. -/
theorem coord_map_div [DivisionRing α] (l : List α) (c : α) :
    coord (l.map (· / c)) = fun i => coord l i / c := by
  funext i
  rcases Nat.lt_or_ge i l.length with lt | ge
  · simp [coord, lt]
  · simp [coord, ge]

end Vec
