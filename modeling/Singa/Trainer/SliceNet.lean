import Singa.Neuralnet.NewNet
import Singa.Trainer.Setup
import Singa.Trainer.SliceTiling

/-!
# `SliceParams(net->params())` on a new net

Every param of the net gets the slices of its owner. The layers, the ids and the
owners stay what they are.
-/

namespace Singa
set_option autoImplicit false

/-- The net after `SliceParams`, with the map `paramid2slices`. -/
def Net.withTable (net : Net) (table : Int → List (Nat × Nat)) : Net where
  layers := net.layers
  params id := if id ∈ net.ids then (net.params id).sliced ((net.params id).view.withTable table) else net.params id

/-- A loop that changes each of some params once. -/
theorem foldl_sliced (q : Nat → Param Unit) {ids : List Nat} (nodup : ids.Nodup) (params : Nat → NetParam) :
    (ids.zip (ids.map q)).foldl (fun all e => Function.update all e.1 ((all e.1).sliced e.2)) params =
      fun id => if id ∈ ids then (params id).sliced (q id) else params id := by
  induction ids generalizing params with
  | nil => simp
  | cons a ids ih =>
    obtain ⟨fresh, nodup⟩ := List.nodup_cons.mp nodup
    rw [List.map_cons, List.zip_cons_cons, List.foldl_cons, ih nodup]
    funext id
    by_cases here : id = a
    · subst here
      rw [if_neg fresh, Function.update_self, if_pos List.mem_cons_self]
    · rw [Function.update_of_ne here]
      simp [here]

/-- The view of a sliced param. -/
theorem NetParam.view_sliced (p : NetParam) (table : Int → List (Nat × Nat)) :
    (p.sliced (p.view.withTable table)).view = p.view.withTable table := by
  unfold Param.withTable
  split
  · rfl
  · rfl

theorem NetParam.view_unsliced {p : NetParam} (new : p.slices = {}) : p.view.Unsliced :=
  ⟨by rw [view, new], by rw [view, new], by rw [view, new], by rw [view, new], by rw [view, new], by rw [view, new]⟩

variable {net net' : Net} {cluster : ClusterProto} {fuel : Nat}

namespace NeuralNet.NewNet

variable (h : NewNet net)

include h

/-- The params of a new net as `SliceParams` is given them. -/
theorem views_nodup : ((net.ids.map fun id => (net.params id).view).map Param.id).Nodup := by
  rw [List.map_map]
  refine h.nodup.map_on fun a ha b hb same => ?_
  have same : ((net.params a).id : Int) = (net.params b).id := same
  rw [h.id a ha, h.id b hb] at same
  exact_mod_cast same

/-- `SliceParams` returns when the `CHECK_LE` of `Slice` passes. -/
theorem sliceNet_table (cluster : ClusterProto) (groups : 1 ≤ cluster.nserverGroups) (servers : 1 ≤ cluster.nserversPerGroup)
    (lcm : leastCommonMultiple cluster.nserverGroups cluster.nserversPerGroup < 2 ^ 31) {pieces : List (List Nat)}
    (hcut : slice fuel (leastCommonMultiple cluster.nserverGroups cluster.nserversPerGroup)
      (ownerSizes (net.ids.map fun id => (net.params id).view)) = .ok pieces) :
    ∃ table, Paramid2Slices (net.ids.map fun id => (net.params id).view) pieces table ∧
      sliceNet fuel cluster net = .ok (net.withTable table, pieces.flatten) := by
  obtain ⟨table, here, run⟩ := sliceParams_paramid2slices cluster groups servers lcm h.views_nodup
    (fun p hp => by
      obtain ⟨id, -, rfl⟩ := List.mem_map.mp hp
      exact h.positive id)
    (fun p hp => by
      obtain ⟨id, -, rfl⟩ := List.mem_map.mp hp
      exact NetParam.view_unsliced (h.slices id)) hcut
  refine ⟨table, here, Run.do_ok.mpr ⟨_, run, ?_⟩⟩
  rw [List.map_map]
  exact congrArg (fun params => Except.ok ((⟨net.layers, params⟩ : Net), pieces.flatten))
    (foldl_sliced (fun id => (net.params id).view.withTable table) h.nodup net.params)

/-- What a run of `SliceParams` that returned did. -/
theorem sliceNet_ok (groups : 1 ≤ cluster.nserverGroups) (servers : 1 ≤ cluster.nserversPerGroup) {slices : List Nat}
    (run : sliceNet fuel cluster net = .ok (net', slices)) :
    ∃ pieces table, Paramid2Slices (net.ids.map fun id => (net.params id).view) pieces table ∧
      net' = net.withTable table ∧ slices = pieces.flatten := by
  obtain ⟨r, sliced, -⟩ := Run.do_ok.mp run
  have lcm := lcm_lt_of_sliceParams (by rw [sliced]; simp)
  rw [sliceParams_eq lcm] at sliced
  obtain ⟨pieces, hcut, -⟩ := Run.do_ok.mp sliced
  obtain ⟨table, here, run'⟩ := h.sliceNet_table cluster groups servers lcm hcut
  rw [run] at run'
  obtain ⟨net, lengths⟩ := Prod.mk.inj (Except.ok.inj run')
  exact ⟨pieces, table, here, net, lengths⟩

end NeuralNet.NewNet

end Singa
