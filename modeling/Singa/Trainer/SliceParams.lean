import Singa.Utils.Common
import Singa.Utils.Param

/-!
# `SliceParams`: slice tables for every parameter

The sizes of the parameters that own themselves are cut by `Slice`, the pieces
are numbered through, and every parameter gets the pieces of its owner.
-/

namespace Singa
set_option autoImplicit false

variable {α : Type}

/-- The variables of the numbering loop: `slices`, `paramid2slices`, `slice_id` and the iterator
`it` into the result of `Slice`, as what is left of it. -/
structure Numbering where
  slices : List Nat
  paramid2slices : Int → List (Nat × Nat)
  sliceId : Nat
  it : List (List Nat)

/-- `for (int len : *it)`: number the pieces of one owner. -/
def Numbering.pieces (id : Int) : List Nat → Numbering → Numbering
  | [], s => s
  | len :: lens, s => Numbering.pieces id lens
    { s with
      slices := s.slices ++ [len]
      paramid2slices := Function.update s.paramid2slices id (s.paramid2slices id ++ [(s.sliceId, len)])
      sliceId := s.sliceId + 1 }

/-- The loop over all parameters; only owners read and move the iterator. -/
def Numbering.params : List (Param α) → Numbering → Run Numbering
  | [], s => .ok s
  | p :: ps, s =>
    if p.id = p.owner then
      match s.it with
      | [] => .error .range
      | lens :: it => Numbering.params ps { Numbering.pieces p.id lens s with it := it }
    else Numbering.params ps s

/-- `for (auto entry : …) param->AddSlice(entry.first, entry.second)`. -/
def addSlices (p : Param α) (entries : List (Nat × Nat)) : Run (Param α) :=
  entries.foldlM (fun p e => p.addSlice e.1 e.2) p

/-- Sizes of the unique parameters. -/
def ownerSizes (params : List (Param α)) : List Nat :=
  (params.filter fun p => p.id = p.owner).map Param.size

/-- `SliceParams`: the parameters with their slice tables, and the length of every slice. -/
def sliceParams (fuel : Nat) (cluster : ClusterProto) (params : List (Param α)) :
    Run (List (Param α) × List Nat) := do
  let lcm ← asInt (leastCommonMultiple cluster.nserverGroups cluster.nserversPerGroup)
  let paramSlice ← slice fuel lcm (ownerSizes params)
  let s ← Numbering.params params ⟨[], fun _ => [], 0, paramSlice⟩
  let params ← params.mapM fun p => addSlices p (s.paramid2slices p.owner)
  return (params, s.slices)

/-- Where the least common multiple is an `int`. -/
theorem sliceParams_eq {fuel : Nat} {cluster : ClusterProto} {params : List (Param α)}
    (lcm : leastCommonMultiple cluster.nserverGroups cluster.nserversPerGroup < 2 ^ 31) :
    sliceParams fuel cluster params = (do
      let paramSlice ← slice fuel (leastCommonMultiple cluster.nserverGroups cluster.nserversPerGroup) (ownerSizes params)
      let s ← Numbering.params params ⟨[], fun _ => [], 0, paramSlice⟩
      let params ← params.mapM fun p => addSlices p (s.paramid2slices p.owner)
      return (params, s.slices)) := by
  rw [sliceParams, asInt, if_pos lcm]
  rfl

theorem sliceParams_overflow {fuel : Nat} {cluster : ClusterProto} {params : List (Param α)}
    (wide : ¬ leastCommonMultiple cluster.nserverGroups cluster.nserversPerGroup < 2 ^ 31) :
    sliceParams fuel cluster params = .error .overflow := by
  rw [sliceParams, asInt, if_neg wide]
  rfl

/-- The multiple of a run that did not stop for it. -/
theorem lcm_lt_of_sliceParams {fuel : Nat} {cluster : ClusterProto} {params : List (Param α)}
    (run : sliceParams fuel cluster params ≠ .error .overflow) :
    leastCommonMultiple cluster.nserverGroups cluster.nserversPerGroup < 2 ^ 31 := by
  by_contra wide
  exact run (sliceParams_overflow wide)

end Singa
