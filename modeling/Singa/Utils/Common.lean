import Singa.Base.Loop
import Singa.Utils.Abort

/-!
# `utils/common.cc`: slicing and partitioning

`Slice` cuts the parameter sizes into pieces for `num` boxes of capacity `avg`;
`PartitionSlices` assigns the pieces to boxes. Both are greedy loops whose
passes do not always consume input, so both are run with fuel. Sizes are
positive and every subtraction is guarded by its own comparison, so an `int` is
a `Nat` below `2 ^ 31`; the total of the sizes, and the least common multiple,
may be larger, and the model stops there. No other sum is: `capacity + diff` is
formed for a size that exceeds the box, so that the box is smaller than the total
(`average_add_tenth_lt`), and every box that is opened takes something.
-/

namespace Singa
set_option autoImplicit false

/-- `gcd`: the loop of alternating remainders. -/
def gcd (a b : Nat) : Nat :=
  if a = 0 then b
  else if b % a = 0 then a
  else gcd (a % (b % a)) (b % a)
termination_by a
decreasing_by
  have := Nat.mod_lt a (y := b % a) (by omega)
  have := Nat.mod_lt b (y := a) (by omega)
  omega

/-- A number that is kept in an `int`. -/
def asInt (n : Nat) : Run Nat := if n < 2 ^ 31 then .ok n else .error .overflow

/-- `LeastCommonMultiple`; where its value is used it has to be an `int`. -/
def leastCommonMultiple (a b : Nat) : Nat :=
  if gcd a b = 0 then 0 else a / gcd a b * b

/-- `for (int x : sizes) avg += x`. -/
def addSizes (sizes : List Nat) : Run Nat := sizes.foldlM (fun avg x => asInt (avg + x)) 0

/-- `avg / num + avg % num` of the total size: the capacity of a box. -/
def average (num : Nat) (sizes : List Nat) : Nat :=
  sizes.sum / num + sizes.sum % num

/-- The variables of `Slice`'s `while (x > 0)` loop over one parameter. -/
structure Slicer where
  capacity : Nat
  nbox : Nat
  x : Nat
  slice : List Nat
  deriving DecidableEq, Repr

/-- `if (size) slice.push_back(size)`. -/
def pushSize (slice : List Nat) (size : Nat) : List Nat :=
  if size = 0 then slice else slice ++ [size]

/-- One pass of the `while` loop. The third branch may cut nothing (`capacity` 0)
and the fourth never does: they only open the next box. -/
def Slicer.body (avg diff : Nat) (s : Slicer) : Slicer ⊕ Slicer :=
  if s.x = 0 then .inr s
  else if s.x ≤ s.capacity then
    .inl { s with capacity := s.capacity - s.x, x := 0, slice := pushSize s.slice s.x }
  else if s.x ≤ s.capacity + diff then
    .inl { s with capacity := 0, x := 0, slice := pushSize s.slice s.x }
  else if diff ≤ s.capacity then
    .inl { capacity := avg, nbox := s.nbox + 1, x := s.x - s.capacity,
           slice := pushSize s.slice s.capacity }
  else
    .inl { s with capacity := avg, nbox := s.nbox + 1 }

/-- The `for (int x : sizes)` loop: the pieces of each size and the final `nbox`. -/
def sliceSizes (fuel avg diff : Nat) : List Nat → Nat → Nat → Run (List (List Nat) × Nat)
  | [], _, nbox => .ok ([], nbox)
  | x :: sizes, capacity, nbox => do
    let s ← Run.ofLoop (Loop.run (Slicer.body avg diff) fuel ⟨capacity, nbox, x, []⟩)
    let (slices, last) ← sliceSizes fuel avg diff sizes s.capacity s.nbox
    return (s.slice :: slices, last)

/-- `Slice`. -/
def slice (fuel num : Nat) (sizes : List Nat) : Run (List (List Nat)) :=
  if num = 0 then .ok []
  else do
    let avg ← addSizes sizes
    let avg := avg / num + avg % num
    let (slices, nbox) ← sliceSizes fuel avg (avg / 10) sizes avg 0
    if nbox ≤ num then .ok slices else .error .boxes

/-- The variables of `PartitionSlices`'s loop; `rest` is what the iterator has not passed. -/
structure Partitioner where
  box : Nat
  boxid : Nat
  rest : List Nat
  slice2box : List Nat
  deriving DecidableEq, Repr

/-- One pass of `PartitionSlices`'s loop. The last branch does not move the iterator. -/
def Partitioner.body (avg diff : Nat) (s : Partitioner) : Partitioner ⊕ Partitioner :=
  match s.rest with
  | [] => .inr s
  | x :: rest =>
    if x ≤ s.box then
      .inl { s with box := s.box - x, rest := rest, slice2box := s.slice2box ++ [s.boxid] }
    else if x ≤ s.box + diff then
      .inl { s with box := 0, rest := rest, slice2box := s.slice2box ++ [s.boxid] }
    else
      .inl { s with box := avg, boxid := s.boxid + 1 }

/-- `PartitionSlices`. -/
def partitionSlices (fuel num : Nat) (slices : List Nat) : Run (List Nat) :=
  if num = 0 then .ok []
  else do
    let avg ← addSizes slices
    let avg := avg / num + avg % num
    let s ← Run.ofLoop (Loop.run (Partitioner.body avg (avg / 10)) fuel ⟨avg, 0, slices, []⟩)
    if s.slice2box.length = slices.length then .ok s.slice2box else .error .sliceCount

end Singa
